import Fakecloud.Lib.Text

/-!
# Partitions and the service part of an ARN
-/

namespace Fakecloud.Aws

open Text Option

def partitions : List Str :=
  ["aws", "aws-cn", "aws-us-gov", "aws-iso", "aws-iso-b",
    "aws-iso-f", "aws-iso-e"]

def partitionFor (region : Str) : Str :=
  if "cn-".toList.isPrefixOf region then "aws-cn"
  else if "us-gov-".toList.isPrefixOf region then "aws-us-gov"
  else if "us-iso-".toList.isPrefixOf region then "aws-iso"
  else if "us-isob-".toList.isPrefixOf region then "aws-iso-b"
  else if "us-isof-".toList.isPrefixOf region then "aws-iso-f"
  else if "eu-isoe-".toList.isPrefixOf region then "aws-iso-e"
  else "aws"

theorem partitionFor_mem (region : Str) : partitionFor region ∈ partitions := by
  unfold partitionFor
  split_ifs <;> decide

def dnsSuffix (aPartition : Str) : Str :=
  if aPartition = "aws-cn" then "amazonaws.com.cn"
  else if aPartition = "aws-iso" then "c2s.ic.gov"
  else if aPartition = "aws-iso-b" then "sc2s.sgov.gov"
  else if aPartition = "aws-iso-e" then "cloud.adc-e.uk"
  else if aPartition = "aws-iso-f" then "csp.hci.ic.gov"
  else "amazonaws.com"

theorem colon_not_mem_of_mem_partitions {aPartition : Str} (h : aPartition ∈ partitions) :
    ':' ∉ aPartition := by
  revert aPartition
  decide

def arnResource (arn service : Str) : Option Str :=
  (arn.dropPrefix? "arn:").bind fun tail =>
    (splitOnce ':' tail).bind fun parts =>
      if parts.1 ∈ partitions then
        (parts.2.dropPrefix? service).bind fun tail => tail.dropPrefix? [':']
      else none

theorem arnResource_of {aPartition : Str} (h : aPartition ∈ partitions) (service resource : Str) :
    arnResource ("arn:" ++ (aPartition ++ ':' :: (service ++ ([':'] ++ resource)))) service =
      some resource := by
  have hs : splitOnce ':' (aPartition ++ ':' :: (service ++ ([':'] ++ resource))) =
      some (aPartition, service ++ ([':'] ++ resource)) :=
        splitOnce_append (colon_not_mem_of_mem_partitions h)
  have hd (a b : Str) : (a ++ b).dropPrefix? a = some b := List.dropPrefix?_append_of_beq b BEq.rfl
  rw [arnResource, hd, bind_some, hs, bind_some, if_pos h, hd, bind_some, hd]

end Fakecloud.Aws
