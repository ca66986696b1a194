import Fakecloud.Lib.StableSort
import Fakecloud.Sqs.Queue
import Mathlib.Algebra.Order.Group.Multiset

/-!
# SQS: ReceiveMessage, and what becomes of the messages

* `SqsQueue.receive` — one attempt to receive on a queue: the batch of a repeated attempt, expiry, the
  messages that become visible again, the selection with its dead letters, the bodies;
* `tryReceiveMessages` — the attempt in an account: the dead letters go to the queue of their ARN, or
  back when there is none;
* `SqsState.census` — the messages of all queues, each counted without its receive history;
* `receive_conserves_iff` — an attempt keeps every message that has not expired, unless a body cannot be
  decrypted after messages were taken out as dead letters.
-/

namespace Fakecloud.Sqs

open Text StableSort List Option SqsMessage SqsQueue

/-! ## One attempt -/

structure ReceiveRequest where
  maxMessages : ℕ
  visibilityTimeout : Option ℤ
  attemptId : Option Str

namespace SqsMessage

/-- Delayed, or in flight, until later. -/
def hidden (now : ℤ) (m : SqsMessage) : Bool := m.visibleAt.any (now < ·)

def lapsed (now : ℤ) (m : SqsMessage) : Bool := m.visibleAt.any (· ≤ now)

def unclaimed (m : SqsMessage) : SqsMessage := { m with receiptHandle := none, visibleAt := none }

def attempted (now : ℤ) (m : SqsMessage) : SqsMessage :=
  { m with
    receiveCount := (m.receiveCount + 1) % 2 ^ 32
    firstReceivedAt := some (m.firstReceivedAt.getD (timestampMillis now)) }

def delivered (handle : Str) (visibleAt : ℤ) (m : SqsMessage) : SqsMessage :=
  { m with receiptHandle := some handle, visibleAt := some visibleAt }

def restored (m : SqsMessage) : SqsMessage :=
  { m with visibleAt := none, receiveCount := m.receiveCount - 1, receiptHandle := none }

/-- A message as it arrives in a dead-letter queue. -/
def redriven (m : SqsMessage) : SqsMessage :=
  { m with receiptHandle := none, visibleAt := none, receiveCount := 0, firstReceivedAt := none }

end SqsMessage

def deadLetterTarget (redrive : Option RedrivePolicy) (m : SqsMessage) : Option Str :=
  (redrive.filter fun rp => rp.maxReceiveCount < m.receiveCount).map RedrivePolicy.deadLetterTargetArn

structure Picked where
  received : List SqsMessage
  dlq : List (Str × SqsMessage)
  handles : StrMap (List Str)

/-- One message taken out; the `n`-th that is received gets the `n`-th handle. -/
def Picked.pick (redrive : Option RedrivePolicy) (now visibleAt : ℤ) (handle : ℕ → Str) (p : Picked)
    (m : SqsMessage) : Picked :=
  match deadLetterTarget redrive (m.attempted now) with
  | some arn => { p with dlq := p.dlq ++ [(arn, m.attempted now)] }
  | none =>
    let h := handle p.received.length
    { p with
      received := p.received ++ [(m.attempted now).delivered h visibleAt]
      handles := p.handles.insert m.messageId ((p.handles.get m.messageId).getD [] ++ [h]) }

/-- The loop over the messages: some are passed over, the others are taken out until enough are
received. -/
def pickFrom (skip : SqsMessage → Bool) (maxMessages : ℕ) (pick : Picked → SqsMessage → Picked) :
    List SqsMessage → Picked → Picked × List SqsMessage
  | [], p => (p, [])
  | m :: rest, p =>
    if skip m then
      let r := pickFrom skip maxMessages pick rest p
      (r.1, m :: r.2)
    else if p.received.length < maxMessages then pickFrom skip maxMessages pick rest (pick p m)
    else (p, m :: rest)

/-- What an attempt leaves of the queue, the dead letters it took out, and its answer. -/
structure Receipt where
  queue : SqsQueue
  dlq : List (Str × SqsMessage)
  answer : Except ServiceError (List SqsMessage)

namespace SqsQueue

def pruneAttempts (q : SqsQueue) (now : ℤ) : SqsQueue :=
  { q with receiveAttemptCache := q.receiveAttemptCache.retain fun e => decide (now < e.expiry) }

/-- The messages of an earlier attempt that are still in flight. -/
def replayed (q : SqsQueue) (attemptId : Str) : List SqsMessage :=
  match q.receiveAttemptCache.get attemptId with
  | none => []
  | some entry => entry.messageIds.filterMap fun id => q.inflight.find? fun m => m.messageId == id

def expired (q : SqsQueue) (now : ℤ) (m : SqsMessage) : Bool :=
  !decide (numSeconds (now - m.createdAt) < q.retentionSeconds)

def dropExpired (q : SqsQueue) (now : ℤ) : SqsQueue :=
  { q with
    messages := q.messages.filter fun m => !q.expired now m
    inflight := q.inflight.filter fun m => !q.expired now m }

/-- Messages in flight that are visible again go back: to the front of a FIFO queue, else to the end. -/
def returnLapsed (q : SqsQueue) (now : ℤ) : SqsQueue :=
  let returned := q.inflight.filter fun m => m.lapsed now
  { q with
    inflight := q.inflight.filter fun m => !m.lapsed now
    receiptHandleMap := returned.foldl (fun h m => h.erase m.messageId) q.receiptHandleMap
    messages :=
      if q.isFifo then returned.map SqsMessage.unclaimed ++ q.messages
      else q.messages ++ returned.map SqsMessage.unclaimed }

def inflightGroups (q : SqsQueue) : List Str := q.inflight.filterMap SqsMessage.messageGroupId

def passesOver (q : SqsQueue) (now : ℤ) (m : SqsMessage) : Bool :=
  m.hidden now || q.inflightGroups.contains (m.messageGroupId.getD [])

def load (q : SqsQueue) (m : SqsMessage) : ℕ :=
  match m.messageGroupId with
  | none => 0
  | some g => q.inflight.countP fun x => x.messageGroupId == some g

/-- The messages a standard queue goes through: groups with fewer messages in flight come first. -/
def fairOrder (q : SqsQueue) (now : ℤ) : List SqsMessage :=
  stableSort (compareOn q.load) (q.messages.filter fun m => !m.hidden now)

def select (q : SqsQueue) (maxMessages : ℕ) (pick : Picked → SqsMessage → Picked) (now : ℤ) :
    Picked × List SqsMessage :=
  let start : Picked := ⟨[], [], q.receiptHandleMap⟩
  if q.isFifo then pickFrom (q.passesOver now) maxMessages pick q.messages start
  else
    let r := pickFrom (fun _ => false) maxMessages pick (q.fairOrder now) start
    (r.1, q.messages.filter (fun m => m.hidden now) ++ r.2)

/-- The messages with the bodies that the caller sees. -/
def plaintexts (q : SqsQueue) (kms : Option KmsHook) (accountId : Str) (ms : List SqsMessage) :
    Except ServiceError (List SqsMessage) :=
  if q.effectiveKmsKeyId.isSome && kms.isSome then
    ms.mapM fun m =>
      (decryptMessageBody kms accountId q.arn m.body).map fun body => { m with body := body }
  else .ok ms

/-- Messages that were taken out go back to the front, and their new handles are forgotten. -/
def restore (q : SqsQueue) (received : List SqsMessage) : SqsQueue :=
  { q with
    messages := received.map SqsMessage.restored ++ q.messages
    receiptHandleMap := received.foldl (fun h m => h.modify m.messageId fun handles =>
      handles.filter fun x => some x != m.receiptHandle) q.receiptHandleMap }

def rememberAttempt (q : SqsQueue) (attemptId : Option Str) (received : List SqsMessage)
    (expiry : ℤ) : SqsQueue :=
  match attemptId with
  | none => q
  | some attempt =>
    if q.isFifo && !received.isEmpty then
      { q with receiveAttemptCache :=
          q.receiveAttemptCache.insert attempt ⟨received.map SqsMessage.messageId, expiry⟩ }
    else q

/-- The queue once what has expired is gone and what has lapsed is back. -/
def refreshed (q : SqsQueue) (now : ℤ) : SqsQueue := (q.dropExpired now).returnLapsed now

/-- The batch of a repeated attempt. -/
def replay (q : SqsQueue) (req : ReceiveRequest) (now : ℤ) : List SqsMessage :=
  if q.isFifo then (req.attemptId.map (q.pruneAttempts now).replayed).getD [] else []

variable (kms : Option KmsHook) (accountId : Str) (req : ReceiveRequest) (now : ℤ) (handle : ℕ → Str)

/-- The end of an attempt on the queue that is left: the received messages are in flight, or go back when
a body does not decrypt. -/
def settle (attemptId : Option Str) (visibleAt : ℤ) (q : SqsQueue) (picked : Picked) : Receipt :=
  match q.plaintexts kms accountId picked.received with
  | .error e => ⟨q.restore picked.received, [], .error e⟩
  | .ok answer =>
    ⟨({ q with inflight := q.inflight ++ picked.received }).rememberAttempt attemptId picked.received
      visibleAt, picked.dlq, .ok answer⟩

/-- An attempt that looks at the queue. -/
def receiveNext (q : SqsQueue) : Receipt :=
  let visibleAt := now + seconds (req.visibilityTimeout.getD q.visibilityTimeoutSecs)
  let selected := (q.refreshed now).select req.maxMessages
    (Picked.pick q.redrivePolicy now visibleAt handle) now
  settle kms accountId req.attemptId visibleAt
    { q.refreshed now with messages := selected.2, receiptHandleMap := selected.1.handles } selected.1

/-- `try_receive_messages` up to the moves between queues. -/
def receive (q : SqsQueue) : Receipt :=
  let pruned := if q.isFifo then q.pruneAttempts now else q
  if !(q.replay req now).isEmpty then
    ⟨pruned, [], pruned.plaintexts kms accountId (q.replay req now)⟩
  else pruned.receiveNext kms accountId req now handle

def push (m : SqsMessage) (q : SqsQueue) : SqsQueue := { q with messages := q.messages ++ [m] }

end SqsQueue

/-- A dead letter goes to the queue of its ARN, or back to its source when there is no such queue. -/
def moveToDlq (sourceArn : Str) (queues : StrMap SqsQueue) (letter : Str × SqsMessage) : StrMap SqsQueue :=
  let named (arn : Str) (e : Str × SqsQueue) : Bool := e.2.arn == arn
  if (queues.entries.find? (named letter.1)).isSome then
    queues.adjust (named letter.1) (SqsQueue.push letter.2.redriven)
  else queues.adjust (named sourceArn) (SqsQueue.push letter.2.redriven)

def SqsState.lookup (s : SqsState) (queueUrl : Str) : Option (Str × SqsQueue) :=
  (resolveQueueUrl queueUrl s).bind fun url => (s.queues.get url).map fun q => (url, q)

def tryReceiveMessages (kms : Option KmsHook) (s : SqsState) (queueUrl : Str) (req : ReceiveRequest)
    (now : ℤ) (handle : ℕ → Str) : SqsState × Except ServiceError (List SqsMessage) :=
  match s.lookup queueUrl with
  | none => (s, .error queueNotFound)
  | some (url, q) =>
    let r := q.receive kms s.accountId req now handle
    ({ s with queues := r.dlq.foldl (moveToDlq q.arn) (s.queues.modify url fun _ => r.queue) },
      r.answer)

/-! ## The messages there are -/

def SqsMessage.core (m : SqsMessage) : SqsMessage :=
  { m with receiptHandle := none, visibleAt := none, receiveCount := 0, firstReceivedAt := none }

def cores (ms : List SqsMessage) : Multiset SqsMessage := (ms.map SqsMessage.core : List SqsMessage)

@[simp] theorem cores_append (ms ns : List SqsMessage) : cores (ms ++ ns) = cores ms + cores ns := by
  simp [cores]

@[simp] theorem cores_nil : cores [] = 0 := rfl

theorem cores_cons (m : SqsMessage) (ms : List SqsMessage) : cores (m :: ms) = {m.core} + cores ms := by
  simp [cores]

theorem cores_perm {ms ns : List SqsMessage} (h : ms.Perm ns) : cores ms = cores ns :=
  Multiset.coe_eq_coe.mpr (h.map _)

theorem cores_map {f : SqsMessage → SqsMessage} (hf : ∀ m, (f m).core = m.core)
    (ms : List SqsMessage) : cores (ms.map f) = cores ms := by
  simp [cores, Function.comp_def, hf]

theorem cores_filter (p : SqsMessage → Bool) (ms : List SqsMessage) :
    cores ms = cores (ms.filter fun m => !p m) + cores (ms.filter p) := by
  rw [← cores_append]
  refine cores_perm ?_
  have hs := filter_append_perm (fun m => !p m) ms
  simpa using hs.symm

namespace SqsQueue

def census (q : SqsQueue) : Multiset SqsMessage := cores q.messages + cores q.inflight

def expiredOf (q : SqsQueue) (now : ℤ) : Multiset SqsMessage :=
  cores (q.messages.filter (q.expired now)) + cores (q.inflight.filter (q.expired now))

theorem census_returnLapsed (q : SqsQueue) (now : ℤ) : (q.returnLapsed now).census = q.census := by
  have hb : cores ((q.inflight.filter fun m => m.lapsed now).map unclaimed) =
      cores (q.inflight.filter fun m => m.lapsed now) := cores_map (f := unclaimed) (fun _ => rfl) _
  rw [census, census, cores_filter (fun m => m.lapsed now) q.inflight]
  simp only [returnLapsed]
  split <;> rw [cores_append, hb] <;> abel

theorem census_refreshed (q : SqsQueue) (now : ℤ) :
    q.census = (q.refreshed now).census + q.expiredOf now := by
  rw [refreshed, census_returnLapsed, census, cores_filter (q.expired now) q.messages,
    cores_filter (q.expired now) q.inflight]
  simp only [census, dropExpired, expiredOf]
  abel

theorem census_push (m : SqsMessage) (q : SqsQueue) : (q.push m).census = q.census + {m.core} := by
  simp only [census, push, cores_append]
  rw [cores_cons]
  abel

theorem census_rememberAttempt (q : SqsQueue) (attemptId : Option Str) (received : List SqsMessage)
    (expiry : ℤ) : (q.rememberAttempt attemptId received expiry).census = q.census := by
  unfold rememberAttempt
  split
  · rfl
  · split <;> rfl

end SqsQueue

/-! ## What the selection takes out -/

def Picked.out (p : Picked) : Multiset SqsMessage := cores p.received + cores (p.dlq.map Prod.snd)

section Pick

variable {redrive : Option RedrivePolicy} {now visibleAt : ℤ} {handle : ℕ → Str} {m : SqsMessage}

def live (redrive : Option RedrivePolicy) (m : SqsMessage) : Bool :=
  !redrive.any fun rp => decide (rp.maxReceiveCount < (m.receiveCount + 1) % 2 ^ 32)

theorem deadLetterTarget_isSome (m : SqsMessage) :
    (deadLetterTarget redrive (m.attempted now)).isSome = !live redrive m := by
  rw [deadLetterTarget, Option.isSome_map, Option.isSome_filter, live, Bool.not_not]
  rfl

open Picked

variable (now visibleAt handle) in
theorem pick_live (h : live redrive m) (p : Picked) :
    ∃ handles, pick redrive now visibleAt handle p m = ⟨p.received ++
      [(m.attempted now).delivered (handle p.received.length) visibleAt], p.dlq, handles⟩ := by
  have hn : deadLetterTarget redrive (m.attempted now) = none := by
    rw [← not_isSome_iff_eq_none, deadLetterTarget_isSome, h]
    simp
  exact ⟨_, by rw [pick, hn]⟩

variable (now visibleAt handle) in
theorem pick_dead (h : live redrive m = false) (p : Picked) :
    ∃ arn, pick redrive now visibleAt handle p m = { p with dlq := p.dlq ++ [(arn, m.attempted now)] } := by
  have hs : (deadLetterTarget redrive (m.attempted now)).isSome := by
    rw [deadLetterTarget_isSome, h]
    rfl
  obtain ⟨arn, ha⟩ := isSome_iff_exists.mp hs
  exact ⟨arn, by rw [pick, ha]⟩

theorem out_pick (p : Picked) (m : SqsMessage) :
    (pick redrive now visibleAt handle p m).out = p.out + {m.core} := by
  have hc : ∀ n : SqsMessage, n.core = m.core → cores [n] = {m.core} := by
    intro n hn
    rw [cores_cons, cores_nil, hn, add_zero]
  rcases hl : live redrive m with _ | _
  · obtain ⟨arn, hp⟩ := pick_dead now visibleAt handle hl p
    rw [hp]
    simp only [out, map_append, cores_append]
    abel
  · obtain ⟨handles, hp⟩ := pick_live now visibleAt handle hl p
    rw [hp]
    simp only [out, cores_append]
    rw [hc ((m.attempted now).delivered (handle p.received.length) visibleAt) rfl]
    abel

variable (skip : SqsMessage → Bool) (maxMessages : ℕ) (ms : List SqsMessage) (p : Picked)

/-- **The loop loses nothing**: what it goes through is taken out or stays. -/
theorem out_pickFrom : (pickFrom skip maxMessages (pick redrive now visibleAt handle) ms p).1.out +
      cores (pickFrom skip maxMessages (pick redrive now visibleAt handle) ms p).2 = p.out + cores ms := by
  induction ms generalizing p with
  | nil => rfl
  | cons m rest ih =>
    unfold pickFrom
    split
    · rw [cores_cons, cores_cons, ← add_assoc, add_right_comm, ih p]
      abel
    · split
      · rw [ih, out_pick]
        abel
      · rfl

/-- The bodies that are received: those of the first live messages that are not passed over. -/
theorem bodies_pickFrom : (pickFrom skip maxMessages (pick redrive now visibleAt handle) ms p).1.received.map
      body = p.received.map body ++ (((ms.filter fun m => !skip m).filter (live redrive)).take
          (maxMessages - p.received.length)).map body := by
  induction ms generalizing p with
  | nil => simp [pickFrom]
  | cons m rest ih =>
    unfold pickFrom
    by_cases hs : skip m
    · rw [if_pos hs, filter_cons_of_neg (by simp [hs])]
      exact ih p
    · rw [if_neg hs, filter_cons_of_pos (by simp [hs])]
      by_cases hr : p.received.length < maxMessages
      · rw [if_pos hr, ih]
        rcases hl : live redrive m with _ | _
        · obtain ⟨arn, hp⟩ := pick_dead now visibleAt handle hl p
          rw [hp, filter_cons_of_neg (by simp [hl])]
        · obtain ⟨handles, hp⟩ := pick_live now visibleAt handle hl p
          have hls : maxMessages - p.received.length = maxMessages - (p.received.length + 1) + 1 := by omega
          rw [hp, filter_cons_of_pos hl, hls]
          simp [delivered, attempted]
      · rw [if_neg hr]
        have hf : maxMessages - p.received.length = 0 := by omega
        simp [hf]

/-- There are dead letters when one is reached before enough messages are received. -/
theorem dlq_pickFrom : (pickFrom skip maxMessages (pick redrive now visibleAt handle) ms p).1.dlq ≠ [] ↔
      p.dlq ≠ [] ∨ ∃ before m after, (ms.filter fun m => !skip m) = before ++ m :: after ∧
        live redrive m = false ∧ p.received.length + (before.filter (live redrive)).length < maxMessages := by
  induction ms generalizing p with
  | nil => simp [pickFrom]
  | cons m rest ih =>
    unfold pickFrom
    by_cases hs : skip m
    · rw [if_pos hs, filter_cons_of_neg (by simp [hs])]
      exact ih p
    rw [if_neg hs, filter_cons_of_pos (by simp [hs])]
    by_cases hr : p.received.length < maxMessages
    · rw [if_pos hr, ih]
      rcases hl : live redrive m with _ | _
      · obtain ⟨arn, hp⟩ := pick_dead now visibleAt handle hl p
        rw [hp]
        refine iff_of_true (.inl (by simp)) (.inr ⟨[], m, _, rfl, hl, by simpa using hr⟩)
      · obtain ⟨handles, hp⟩ := pick_live now visibleAt handle hl p
        rw [hp]
        refine or_congr_right ⟨?_, ?_⟩
        · rintro ⟨before, x, after, heq, hx, hlt⟩
          refine ⟨m :: before, x, after, by rw [heq, cons_append], hx, ?_⟩
          rw [filter_cons_of_pos hl]
          simp only [length_append, length_cons] at hlt ⊢
          omega
        · rintro ⟨before, x, after, heq, hx, hlt⟩
          rcases before with _ | ⟨b, before⟩
          · obtain ⟨rfl, -⟩ := List.cons.inj heq
            rw [hx] at hl
            cases hl
          · obtain ⟨rfl, hrs⟩ := List.cons.inj heq
            refine ⟨before, x, after, hrs, hx, ?_⟩
            rw [filter_cons_of_pos hl] at hlt
            simp only [length_append, length_cons, length_nil] at hlt ⊢
            omega
    · rw [if_neg hr]
      refine ⟨.inl, ?_⟩
      rintro (h | ⟨before, x, after, -, -, hlt⟩)
      · exact h
      · omega

end Pick

namespace SqsQueue

/-- The messages an attempt goes through, in order. -/
def onOffer (q : SqsQueue) (now : ℤ) : List SqsMessage :=
  if q.isFifo then q.messages.filter fun m => !q.passesOver now m else q.fairOrder now

section Select

variable {q : SqsQueue} {maxMessages : ℕ} {redrive : Option RedrivePolicy} {now visibleAt : ℤ}
  {handle : ℕ → Str}

theorem out_select : (q.select maxMessages (Picked.pick redrive now visibleAt handle) now).1.out +
      cores (q.select maxMessages (Picked.pick redrive now visibleAt handle) now).2 = cores q.messages := by
  have hs : Picked.out ⟨[], [], q.receiptHandleMap⟩ = 0 := rfl
  unfold select
  split
  · rw [out_pickFrom, hs, zero_add]
  · have hf : cores (q.fairOrder now) = cores (q.messages.filter fun m => !m.hidden now) :=
      cores_perm (stableSort_perm _ _)
    rw [cores_append, add_left_comm, out_pickFrom, hf, add_comm]
    exact (cores_filter (fun m => m.hidden now) q.messages).symm

theorem bodies_select : (q.select maxMessages (Picked.pick redrive now visibleAt handle) now).1.received.map
      body = (((q.onOffer now).filter (live redrive)).take maxMessages).map
        body := by
  unfold select onOffer
  split
  · rw [bodies_pickFrom]
    simp
  · rw [bodies_pickFrom]
    simp

theorem dlq_select : (q.select maxMessages (Picked.pick redrive now visibleAt handle) now).1.dlq ≠ [] ↔
      ∃ before m after, q.onOffer now = before ++ m :: after ∧ live redrive m = false ∧
        (before.filter (live redrive)).length < maxMessages := by
  unfold select onOffer
  split
  · rw [dlq_pickFrom]
    simp
  · rw [dlq_pickFrom]
    simp

end Select

/-! ## What an attempt keeps -/

/-- The bodies cannot all be shown when the queue is encrypted and one of them does not decrypt. -/
theorem plaintexts_error_iff (q : SqsQueue) (kms : Option KmsHook) (accountId : Str)
    (ms : List SqsMessage) : (∃ e, q.plaintexts kms accountId ms = .error e) ↔ q.effectiveKmsKeyId.isSome ∧
        ∃ b ∈ ms.map body, ∃ e, decryptMessageBody kms accountId q.arn b = .error e := by
  unfold plaintexts
  rcases kms with _ | hook
  · simp [decryptMessageBody]
  rcases q.effectiveKmsKeyId with _ | key
  · simp
  simp only [isSome_some, Bool.and_self, if_true, true_and]
  rw [mapM_eq_error_iff]
  simp only [map_eq_error_iff, List.mem_map, exists_exists_and_eq_and]

/-- What was taken out is in flight, a dead letter or back, except for dead letters when a body does not
decrypt. -/
theorem census_settle (kms : Option KmsHook) (accountId : Str) (attemptId : Option Str) (visibleAt : ℤ)
    (q : SqsQueue) (picked : Picked) :
    ∃ lost, q.census + picked.out = (settle kms accountId attemptId visibleAt q picked).queue.census +
        cores ((settle kms accountId attemptId visibleAt q picked).dlq.map Prod.snd) + lost ∧
      (lost ≠ 0 ↔ picked.dlq ≠ [] ∧ ∃ e, q.plaintexts kms accountId picked.received = .error e) := by
  unfold settle
  rcases q.plaintexts kms accountId picked.received with e | answer
  · refine ⟨cores (picked.dlq.map Prod.snd), ?_, ?_⟩
    · have hb : cores (picked.received.map restored) = cores picked.received :=
        cores_map (f := restored) (fun _ => rfl) _
      simp only [census, restore, Picked.out, cores_append, hb]
      abel
    · simp [cores]
  · refine ⟨0, ?_, by simp⟩
    simp only [census_rememberAttempt]
    simp only [census, Picked.out, cores_append]
    abel

/-- **The attempts that lose dead letters**: one is reached before enough messages are received, and the
body of a received one does not decrypt. -/
structure LosesDeadLetters (q : SqsQueue) (kms : Option KmsHook) (accountId : Str)
    (req : ReceiveRequest) (now : ℤ) : Prop where
  encrypted : q.effectiveKmsKeyId.isSome
  deadLetter : ∃ before m after, (q.refreshed now).onOffer now = before ++ m :: after ∧
    live q.redrivePolicy m = false ∧
    (before.filter (live q.redrivePolicy)).length < req.maxMessages
  undecryptable : ∃ m ∈ (((q.refreshed now).onOffer now).filter (live q.redrivePolicy)).take
    req.maxMessages, ∃ e, decryptMessageBody kms accountId q.arn m.body = .error e

variable (kms : Option KmsHook) (accountId : Str) (req : ReceiveRequest) (now : ℤ) (handle : ℕ → Str)
  (q : SqsQueue)

/-- The messages of an attempt: they stay, become dead letters, have expired or are lost. -/
theorem census_receiveNext : ∃ lost, q.census = (q.receiveNext kms accountId req now handle).queue.census +
        cores ((q.receiveNext kms accountId req now handle).dlq.map Prod.snd) + (q.expiredOf now + lost) ∧
      (lost ≠ 0 ↔ q.LosesDeadLetters kms accountId req now) := by
  unfold receiveNext
  dsimp only
  generalize now + seconds (req.visibilityTimeout.getD q.visibilityTimeoutSecs) = visibleAt
  have ho := @out_select (q.refreshed now) req.maxMessages q.redrivePolicy now visibleAt handle
  have hbd := @bodies_select (q.refreshed now) req.maxMessages q.redrivePolicy now visibleAt handle
  have hdl := @dlq_select (q.refreshed now) req.maxMessages q.redrivePolicy now visibleAt handle
  generalize (q.refreshed now).select req.maxMessages _ now = selected at ho hbd hdl ⊢
  obtain ⟨picked, stay⟩ := selected
  obtain ⟨lost, hs, hl⟩ := census_settle kms accountId req.attemptId visibleAt
    { q.refreshed now with messages := stay, receiptHandleMap := picked.handles } picked
  refine ⟨lost, ?_, ?_⟩
  · rw [q.census_refreshed now, add_comm (q.expiredOf now), ← add_assoc, ← hs]
    rw [census, ← ho]
    dsimp only [census]
    abel
  · rw [hl, hdl, plaintexts_error_iff, hbd]
    constructor
    · rintro ⟨hd, hk, b, hb, e, he⟩
      obtain ⟨m, hm, rfl⟩ := mem_map.mp hb
      exact ⟨hk, hd, m, hm, e, he⟩
    · rintro ⟨hk, hd, m, hm, e, he⟩
      exact ⟨hd, hk, m.body, mem_map_of_mem hm, e, he⟩

theorem arn_receiveNext : (q.receiveNext kms accountId req now handle).queue.arn = q.arn := by
  unfold receiveNext settle
  dsimp only
  split
  · rfl
  · unfold rememberAttempt
    split
    · rfl
    · split <;> rfl

/-- A repeated attempt keeps all messages where they are; another one drops what has expired and may
lose dead letters. -/
theorem census_receive : ∃ gone, q.census = (q.receive kms accountId req now handle).queue.census +
        cores ((q.receive kms accountId req now handle).dlq.map Prod.snd) + gone ∧ (gone ≤ q.expiredOf now ↔
        (q.replay req now = [] → ¬ q.LosesDeadLetters kms accountId req now)) := by
  have hp : ∃ cache, (if q.isFifo then q.pruneAttempts now else q) =
    { q with receiveAttemptCache := cache } := by
    split
    · exact ⟨_, rfl⟩
    · exact ⟨q.receiveAttemptCache, rfl⟩
  obtain ⟨cache, hp⟩ := hp
  unfold receive
  rw [hp]
  by_cases hr : q.replay req now = []
  · rw [if_neg (by simp [hr])]
    obtain ⟨lost, hc, hl⟩ :=
      census_receiveNext kms accountId req now handle { q with receiveAttemptCache := cache }
    refine ⟨q.expiredOf now + lost, hc, ?_⟩
    have hs : LosesDeadLetters { q with receiveAttemptCache := cache } kms accountId req now ↔
        q.LosesDeadLetters kms accountId req now := ⟨fun h => ⟨h.encrypted, h.deadLetter, h.undecryptable⟩,
        fun h => ⟨h.encrypted, h.deadLetter, h.undecryptable⟩⟩
    rw [add_le_iff_nonpos_right, nonpos_iff_eq_zero, forall_prop_of_true hr, ← hs, ← hl, not_not]
  · rw [if_pos (by simpa using hr)]
    exact ⟨0, by simp [census], iff_of_true (Multiset.zero_le _) fun h => absurd h hr⟩

theorem arn_receive : (q.receive kms accountId req now handle).queue.arn = q.arn := by
  unfold receive
  dsimp only
  split
  · split <;> rfl
  · rw [arn_receiveNext]
    split <;> rfl

end SqsQueue

/-! ## The messages of an account -/

def censusOf (queues : StrMap SqsQueue) : Multiset SqsMessage :=
  (queues.entries.map fun e => e.2.census).sum

def SqsState.census (s : SqsState) : Multiset SqsMessage := censusOf s.queues

def arnsOf (queues : StrMap SqsQueue) : List Str := queues.entries.map fun e => e.2.arn

variable {queues : StrMap SqsQueue} {sourceArn : Str}

theorem census_adjust_push {p : Str × SqsQueue → Bool}
    {e : Str × SqsQueue} (h : queues.entries.find? p = some e) (m : SqsMessage) :
    censusOf (queues.adjust p (push m)) = censusOf queues + {m.core} ∧
      arnsOf (queues.adjust p (push m)) = arnsOf queues := by
  refine ⟨?_, OrdMap.values_adjustEntries (f := push m) arn p (fun _ => rfl) _⟩
  have hs := queues.sum_adjust census (push m) h
  rw [census_push, ← add_assoc, add_right_comm] at hs
  exact add_right_cancel hs

/-- **A dead letter arrives**, in the queue it is meant for or where it came from. -/
theorem census_moveToDlq (h : sourceArn ∈ arnsOf queues) (letter : Str × SqsMessage) :
    censusOf (moveToDlq sourceArn queues letter) = censusOf queues + {letter.2.core} ∧
      arnsOf (moveToDlq sourceArn queues letter) = arnsOf queues := by
  unfold moveToDlq
  dsimp only
  split
  · next hf =>
    obtain ⟨e, he⟩ := isSome_iff_exists.mp hf
    exact census_adjust_push he letter.2.redriven
  · obtain ⟨e, hm, ha⟩ := mem_map.mp h
    have hs : (queues.entries.find? fun e => e.2.arn == sourceArn).isSome :=
      find?_isSome.mpr ⟨e, hm, by simpa using ha⟩
    obtain ⟨e, he⟩ := isSome_iff_exists.mp hs
    exact census_adjust_push he letter.2.redriven

theorem census_moveAll (dlq : List (Str × SqsMessage))
    (h : sourceArn ∈ arnsOf queues) : censusOf (dlq.foldl (moveToDlq sourceArn) queues) =
      censusOf queues + cores (dlq.map Prod.snd) := by
  induction dlq generalizing queues with
  | nil => simp
  | cons letter dlq ih =>
    obtain ⟨hc, ha⟩ := census_moveToDlq h letter
    rw [foldl_cons, ih (ha ▸ h), hc]
    abel

theorem census_modify {url : Str} {q q' : SqsQueue} (hg : queues.get url = some q) (ha : q'.arn = q.arn) :
    censusOf (queues.modify url fun _ => q') + q.census = censusOf queues + q'.census ∧
      q.arn ∈ arnsOf (queues.modify url fun _ => q') := by
  obtain ⟨e, hf, rfl⟩ := map_eq_some_iff.mp hg
  refine ⟨queues.sum_adjust census (fun _ => q') hf, ?_⟩
  rw [← ha]
  exact mem_map_of_mem (queues.mem_adjust (fun _ => q') hf)

/-- The messages past their retention period in the queue that is received from. -/
def SqsState.expiredIn (s : SqsState) (queueUrl : Str) (now : ℤ) : Multiset SqsMessage :=
  ((s.lookup queueUrl).map fun r => r.2.expiredOf now).getD 0

/-- **Conservation**: what there was is there, once as often as before, and nothing else; only messages
past their retention period may be missing. -/
def Conserved (s s' : SqsState) (expired : Multiset SqsMessage) : Prop :=
  ∃ dropped ≤ expired, s.census = s'.census + dropped

/-- **An attempt to receive keeps every message that has not expired, unless it loses dead letters.** -/
theorem receive_conserves_iff (kms : Option KmsHook) (s : SqsState) (queueUrl : Str)
    (req : ReceiveRequest) (now : ℤ) (handle : ℕ → Str) :
    Conserved s (tryReceiveMessages kms s queueUrl req now handle).1 (s.expiredIn queueUrl now) ↔
      ∀ url q, s.lookup queueUrl = some (url, q) → q.replay req now = [] →
        ¬ q.LosesDeadLetters kms s.accountId req now := by
  unfold Conserved tryReceiveMessages SqsState.expiredIn
  rcases hl : s.lookup queueUrl with _ | ⟨url, q⟩
  · exact iff_of_true ⟨0, le_refl _, (add_zero _).symm⟩ nofun
  obtain ⟨url', -, ht⟩ := bind_eq_some_iff.mp hl
  obtain ⟨q', hgt, heq⟩ := map_eq_some_iff.mp ht
  obtain ⟨rfl, rfl⟩ := Prod.mk.inj heq
  obtain ⟨gone, hqu, hg⟩ := q'.census_receive kms s.accountId req now handle
  obtain ⟨hm, ha⟩ := census_modify hgt (q'.arn_receive kms s.accountId req now handle)
  -- what is gone from the queue is gone from the account
  have hc : s.census = censusOf ((q'.receive kms s.accountId req now handle).dlq.foldl
      (moveToDlq q'.arn) (s.queues.modify url' fun _ =>
        (q'.receive kms s.accountId req now handle).queue)) + gone := by
    rw [census_moveAll _ ha]
    refine add_right_cancel (b := (q'.receive kms s.accountId req now handle).queue.census) ?_
    rw [SqsState.census, ← hm, hqu]
    abel
  constructor
  · rintro ⟨dropped, hd, hk⟩ url q hq hr
    obtain ⟨rfl, rfl⟩ := Prod.mk.inj (some.inj hq)
    have hs : gone = dropped := add_left_cancel (hc.symm.trans hk)
    exact hg.mp (hs ▸ hd) hr
  · intro h
    exact ⟨gone, hg.mpr (h url' q' rfl), hc⟩

namespace Example

def message (id body : String) (receiveCount : ℕ) : SqsMessage where
  messageId := id.toList
  receiptHandle := none
  body := body.toList
  md5OfBody := []
  sentTimestamp := 0
  attributes := []
  messageAttributes := []
  visibleAt := none
  receiveCount := receiveCount
  firstReceivedAt := none
  messageGroupId := none
  messageDedupId := none
  createdAt := 0
  sequenceNumber := none

/-- An encrypted queue whose dead letters go to `d`: `a` was received as often as it may be. -/
def redriving : SqsQueue :=
  { SqsQueue.create "q" false with
    messages := [message "a" "x" 1, message "b" "fakecloud-kms:k:x" 0]
    attributes := OrdMap.empty.insert "KmsMasterKeyId" ['k']
    redrivePolicy := some ⟨['d'], 1⟩ }

def account : SqsState where
  accountId := []
  region := []
  queues := (OrdMap.empty.insert ['q'] redriving).insert ['d'] (.create "d" false)
  nameToUrl := .empty

def disabledKey : KmsHook where
  encrypt _ _ _ _ _ := .error "disabled"
  decrypt _ _ _ := .error "disabled"

/-- **A lost dead letter.**  `a` is taken out as a dead letter, `b` does not decrypt: the attempt fails,
`b` goes back, and `a` is in no queue. -/
theorem lost_dead_letter :
    ¬ Conserved account
      (tryReceiveMessages (some disabledKey) account ['q'] ⟨1, none, none⟩ 0 fun _ => ['h']).1
      (account.expiredIn ['q'] 0) ∧
    (tryReceiveMessages (some disabledKey) account ['q'] ⟨1, none, none⟩ 0
      fun _ => ['h']).1.queues.entries.map (fun e =>
        (e.1, (e.2.messages ++ e.2.inflight).map SqsMessage.messageId)) =
      [(['d'], []), (['q'], [['b']])] := by
  refine ⟨?_, by decide +kernel⟩
  rintro ⟨dropped, hd, hc⟩
  have hn : account.expiredIn ['q'] 0 = 0 := by decide +kernel
  rw [hn, Multiset.le_zero] at hd
  rw [hd] at hc
  have hcr := congrArg Multiset.card hc
  revert hcr
  decide +kernel

end Example

end Fakecloud.Sqs
