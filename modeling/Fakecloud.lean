import Fakecloud.Aws.EventMatch
import Fakecloud.Cloudformation.Cidr
import Fakecloud.Cloudformation.Exports
import Fakecloud.Cloudformation.Provision
import Fakecloud.Cloudformation.Redeploy
import Fakecloud.Cloudformation.Resolution
import Fakecloud.Core.Authenticity
import Fakecloud.Core.Chunked
import Fakecloud.Core.Mediation
import Fakecloud.Dynamodb.Arithmetic
import Fakecloud.Dynamodb.AttributeUpdates
import Fakecloud.Dynamodb.FailedUpdate
import Fakecloud.Dynamodb.KeyOrder
import Fakecloud.Dynamodb.Query
import Fakecloud.Dynamodb.Scan
import Fakecloud.Dynamodb.StreamLog
import Fakecloud.Dynamodb.UpdateKeys
import Fakecloud.Ecr.Lifecycle
import Fakecloud.Eventbridge.Minutes
import Fakecloud.Iam.Cidr
import Fakecloud.Iam.DateValues
import Fakecloud.Iam.Kms
import Fakecloud.Iam.Negation
import Fakecloud.Iam.PolicyDocument
import Fakecloud.Iam.Substitution
import Fakecloud.Kinesis.Consumer
import Fakecloud.Kinesis.Delivery
import Fakecloud.Kinesis.Sequence
import Fakecloud.Organizations.Scps
import Fakecloud.S3.Authorization
import Fakecloud.S3.Batch
import Fakecloud.S3.Lock
import Fakecloud.S3.Multipart
import Fakecloud.S3.Restart
import Fakecloud.S3.TwoPhase
import Fakecloud.Scheduler.Cron
import Fakecloud.Sqs.Dedup
import Fakecloud.Sqs.Receive
import Fakecloud.Stepfunctions.Choice
import Fakecloud.Stepfunctions.MapState
import Fakecloud.Sts.Sessions
