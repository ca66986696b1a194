import Fakecloud.Lib.DedupWindow
import Fakecloud.Sqs.Send

/-!
# SQS: deduplication in a FIFO queue

* `Send` — a message, an entry of a batch or a delivery; `sendMessageBatch_runs` says that a batch is the
  run of its entries;
* `Send.step` — what a send does to the deduplication cache and what it reports;
* `deduplicated_iff` — of two sends with one deduplication id in one scope less than five minutes apart,
  at most one enqueues a message and the second reports the first, exactly when neither is a delivery and
  what the first repeated, if anything, is still remembered at the second.
-/

namespace Fakecloud.Sqs

open Text DedupWindow List Option SqsQueue BatchSendConfig

def cacheOf (q : SqsQueue) : Cache Str (Str × Option ℕ) := fun k =>
  (q.dedupCache.get k).map fun e => ⟨(e.messageId, e.sequenceNumber), e.expiry⟩

/-- The time for which a deduplication id is remembered. -/
def dedupWindow : ℤ := seconds dedupSeconds

section Cache

variable (q : SqsQueue)

theorem cacheOf_pruneDedup (now : ℤ) : cacheOf (q.pruneDedup now) = (cacheOf q).liveAt now := by
  funext k
  change ((q.dedupCache.retain _).get k).map _ = _
  rw [OrdMap.get_retain, Cache.liveAt, cacheOf]
  rcases q.dedupCache.get k with _ | e
  · rfl
  · by_cases h : now < e.expiry
    · rw [filter_some_pos (by simpa using h), map_some, filter_some_pos (by simpa using h)]
    · rw [filter_some_neg (by simpa using h), map_some, filter_some_neg (by simpa using h), map_none]

theorem cacheOf_countUp : cacheOf q.countUp = cacheOf q := by
  rw [countUp_eq]
  rfl

theorem cacheOf_enqueue (k : Str) (m : SqsMessage) (now : ℤ) :
    cacheOf (q.enqueue (some k) m now) = Function.update (cacheOf q) k
      (some ⟨(m.messageId, m.sequenceNumber), now + dedupWindow⟩) := by
  funext k'
  change ((q.dedupCache.insert k _).get k').map _ = _
  by_cases hk : k' = k
  · rw [hk, OrdMap.get_insert_self, Function.update_self]
    rfl
  · have hne : compare k k' ≠ .eq := fun h => hk (Std.LawfulEqCmp.eq_of_compare h).symm
    rw [OrdMap.get_insert_of_ne _ _ hne, Function.update_of_ne hk]
    rfl

end Cache

/-! ## One send -/

inductive Send
  | message (req : SendRequest) (id : Str)
  | entry (entry : BatchEntry) (storedBody : Option Str) (id : Str)
  | delivery (d : Delivery) (id : Str)

/-- A send that was accepted, with its deduplication id and its group. -/
structure Accepted extends Sent Str (Str × Option ℕ) where
  dedupId : Str
  group : Option Str

def accepted (q q' : SqsQueue) (now : ℤ) (checked : Bool) (dedupId : Str) (group : Option Str)
    (value : Str × Option ℕ) : Accepted where
  at_ := now
  key := dedupCacheKey q dedupId group
  checked := checked
  live := (cacheOf q).liveAt now (dedupCacheKey q dedupId group)
  stored := decide (q.messages.length < q'.messages.length)
  value := value
  dedupId := dedupId
  group := group

namespace Send

def id : Send → Str
  | message _ id => id
  | entry _ _ id => id
  | delivery _ id => id

def run (S : Sender) (q : SqsQueue) (now : ℤ) : Send → SqsQueue × Option Accepted
  | message req id =>
    let r := q.sendMessage S req now id
    (r.1, match r.2 with
      | .error _ => none
      | .ok result =>
        (effectiveDedupId S.tools q.isFifo q.contentBasedDeduplication req).map fun d =>
          accepted q r.1 now true d req.messageGroupId (result.messageId, result.sequenceNumber))
  | entry e storedBody id =>
    let r := q.processBatchSendEntry S.tools e (.fromQueue q now) storedBody id
    (r.1, match r.2, e.messageBody with
      | .success _ result, some body =>
        (effectiveDedupId S.tools q.isFifo q.contentBasedDeduplication (e.request body)).map fun d =>
          accepted q r.1 now true d e.messageGroupId (result.messageId, result.sequenceNumber)
      | _, _ => none)
  | delivery d id =>
    let r := q.tryDeliver S d now id
    (r.1, match r.2 with
      | .error _ => none
      | .ok () => (q.deliveredDedupId S.tools d).map fun dedupId =>
          accepted q r.1 now false dedupId d.messageGroupId (id, q.nextNumber))

end Send

/-- What a send does to a FIFO queue. -/
inductive Step (q : SqsQueue) (now : ℤ) (id : Str) : SqsQueue → Option Accepted → Prop
  | refused {q' : SqsQueue} (hcache : cacheOf q' = cacheOf q ∨ cacheOf q' = (cacheOf q).liveAt now) :
    Step q now id q' none
  | repeated {q' : SqsQueue} {dedupId : Str} {group : Option Str} {e : Entry (Str × Option ℕ)}
    (hlive : (cacheOf q).liveAt now (dedupCacheKey q dedupId group) = some e)
    (hmessages : q'.messages = q.messages) (hcache : cacheOf q' = (cacheOf q).liveAt now) :
    Step q now id q' (some (accepted q q' now true dedupId group e.value))
  | stored {q' : SqsQueue} {dedupId : Str} {group : Option Str} {m : SqsMessage}
    (hlive : (cacheOf q).liveAt now (dedupCacheKey q dedupId group) = none) (hid : m.messageId = id)
    (hmessages : q'.messages = q.messages ++ [m])
    (hcache : cacheOf q' = Function.update ((cacheOf q).liveAt now) (dedupCacheKey q dedupId group)
      (some ⟨(m.messageId, m.sequenceNumber), now + dedupWindow⟩)) :
    Step q now id q' (some (accepted q q' now true dedupId group (m.messageId, m.sequenceNumber)))
  | bypassed {q' : SqsQueue} {dedupId : Str} {group : Option Str} {m : SqsMessage}
    (hid : m.messageId = id) (hmessages : q'.messages = q.messages ++ [m])
    (hcache : cacheOf q' = cacheOf q) :
    Step q now id q' (some (accepted q q' now false dedupId group (m.messageId, m.sequenceNumber)))

section Steps

variable {q q' : SqsQueue} {now : ℤ}

variable {id dedupId : Str} {group : Option Str} {a : Accepted}

theorem step_repeated {entry : DedupEntry}
    (hg : (q.pruneDedup now).dedupCache.get (dedupCacheKey q dedupId group) = some entry) :
    Step q now id (q.pruneDedup now) (some (accepted q (q.pruneDedup now) now true dedupId group
      (entry.messageId, entry.sequenceNumber))) := by
  have hl : (cacheOf q).liveAt now (dedupCacheKey q dedupId group) =
      some ⟨(entry.messageId, entry.sequenceNumber), entry.expiry⟩ := by
    rw [← cacheOf_pruneDedup, cacheOf, hg]
    rfl
  exact .repeated hl rfl (cacheOf_pruneDedup q now)

theorem step_stored (m : SqsMessage)
    (hg : (q.pruneDedup now).dedupCache.get (dedupCacheKey q dedupId group) = none) : Step q now m.messageId
      ((q.pruneDedup now).countUp.enqueue (some (dedupCacheKey q dedupId group)) m now)
      (some (accepted q
        ((q.pruneDedup now).countUp.enqueue (some (dedupCacheKey q dedupId group)) m now) now true
        dedupId group (m.messageId, m.sequenceNumber))) := by
  have hl : (cacheOf q).liveAt now (dedupCacheKey q dedupId group) = none := by
    rw [← cacheOf_pruneDedup, cacheOf, hg]
    rfl
  refine .stored hl rfl ?_ ?_
  · rw [countUp_eq]
    rfl
  · rw [cacheOf_enqueue, cacheOf_countUp, cacheOf_pruneDedup]

/-- A FIFO queue has an id to deduplicate a message by, if it is given one or makes one. -/
theorem exists_effectiveDedupId (T : Tools) {req : SendRequest} {contentBased : Bool}
    (h : req.messageDedupId.isSome ∨ contentBased) :
    ∃ d, effectiveDedupId T true contentBased req = some d := by
  unfold effectiveDedupId
  rcases hid : req.messageDedupId with _ | d
  · rw [hid] at h
    exact ⟨_, if_pos (h.resolve_left (by simp))⟩
  · exact ⟨d, rfl⟩

open Send

theorem step_message (S : Sender) (req : SendRequest) (id : Str) (hf : q.isFifo) :
    Step q now id (run S q now (.message req id)).1 (run S q now (.message req id)).2 := by
  unfold run sendMessage
  dsimp only
  rcases hv : q.validateSend req with e | ⟨⟨⟩⟩
  · exact .refused (.inl rfl)
  obtain ⟨-, -, hdd⟩ := checkFifoSendConstraints_ok hf (validateSend_ok hv)
  obtain ⟨d, hd⟩ := exists_effectiveDedupId S.tools hdd
  rw [hf, hd, dedupKey, map_some, lookupDedup]
  rcases hg : (q.pruneDedup now).dedupCache.get (dedupCacheKey q d req.messageGroupId) with _ | entry
  · dsimp only
    split
    · exact .refused (.inr (cacheOf_pruneDedup q now))
    · split
      · refine .refused (.inr ?_)
        rw [cacheOf_countUp, cacheOf_pruneDedup]
      · next stored _ =>
        exact step_stored (newMessage S.tools req (some d) stored _ now id _) hg
  · exact step_repeated hg

theorem step_entry (S : Sender) (e : BatchEntry) (storedBody : Option Str) (id : Str)
    (hf : q.isFifo) : Step q now id (run S q now (.entry e storedBody id)).1
      (run S q now (.entry e storedBody id)).2 := by
  unfold run processBatchSendEntry
  dsimp only
  rcases e.id with _ | entryId
  · exact .refused (.inl rfl)
  rcases e.messageBody with _ | body
  · exact .refused (.inl rfl)
  dsimp only
  rcases hfl : entryFault (.fromQueue q now) (e.request body) with _ | ⟨code, text⟩
  · obtain ⟨-, hdd⟩ := entryFault_none hf hfl
    obtain ⟨d, hd⟩ := exists_effectiveDedupId S.tools hdd
    have he : effectiveDedupId S.tools (fromQueue q now).isFifo
        (fromQueue q now).contentBasedDedup (e.request body) = some d := by
      rw [← hd, ← hf]
      rfl
    have he' : effectiveDedupId S.tools q.isFifo q.contentBasedDeduplication
        (e.request body) = some d := he
    have hl : q.lookupDedup (q.dedupKey (some d) (e.request body).messageGroupId)
        (fromQueue q now).now = (q.pruneDedup now,
          (q.pruneDedup now).dedupCache.get (dedupCacheKey q d e.messageGroupId)) := rfl
    rw [he, hl]
    rcases hg : (q.pruneDedup now).dedupCache.get (dedupCacheKey q d e.messageGroupId) with _ | entry
    · dsimp only
      rw [he']
      exact step_stored (newMessage S.tools (e.request body) (some d)
        (storedBody.getD body) _ now id _) hg
    · dsimp only
      rw [he']
      exact step_repeated hg
  · exact .refused (.inl rfl)

theorem step_delivery (S : Sender) (d : Delivery) (id : Str) (hf : q.isFifo) :
    Step q now id (run S q now (.delivery d id)).1 (run S q now (.delivery d id)).2 := by
  unfold run tryDeliver
  dsimp only
  split
  · exact .refused (.inl rfl)
  · obtain ⟨dedupId, hid⟩ : ∃ dedupId, q.deliveredDedupId S.tools d = some dedupId := by
      unfold deliveredDedupId
      rcases d.messageDedupId with _ | dedupId
      · exact ⟨_, if_pos hf⟩
      · exact ⟨dedupId, rfl⟩
    split
    · exact .refused (.inl (cacheOf_countUp q))
    · next stored _ =>
      rw [hid]
      refine .bypassed (m := q.deliveredMessage S.tools d stored now id) rfl ?_ (cacheOf_countUp q)
      rw [countUp_eq]

theorem Step.key_eq (h : Step q now id q' (some a)) : a.key = dedupCacheKey q a.dedupId a.group := by
  cases h <;> rfl

theorem Step.value_id (h : Step q now id q' (some a)) (hs : a.stored) : a.value.1 = id := by
  cases h with
  | repeated hl hm hc => simp [accepted, hm] at hs
  | stored hl hid hm hc => exact hid
  | bypassed hid hm hc => exact hid

/-- **What a send does to a FIFO queue.** -/
theorem Send.step (S : Sender) (hf : q.isFifo) (now : ℤ) (send : Send) :
    Step q now send.id (send.run S q now).1 (send.run S q now).2 := by
  cases send with
  | message req id => exact step_message S req id hf
  | entry e storedBody id => exact step_entry S e storedBody id hf
  | delivery d id => exact step_delivery S d id hf

theorem Send.run_settings (S : Sender) (q : SqsQueue) (now : ℤ) (send : Send) :
    (send.run S q now).1.isFifo = q.isFifo ∧ (send.run S q now).1.attributes = q.attributes := by
  have hg : ∀ {id : Str} {q' : SqsQueue}, q.Grown id q' → q'.isFifo = q.isFifo ∧
    q'.attributes = q.attributes := by
    intro id q' h
    cases h <;> exact ⟨rfl, rfl⟩
  cases send with
  | message req id => exact hg (q.sendMessage_grown S req now id)
  | entry e storedBody id => exact hg (q.processBatchSendEntry_grown S.tools e now storedBody id)
  | delivery d id =>
    have hc : q.countUp.isFifo = q.isFifo ∧ q.countUp.attributes = q.attributes := by
      rw [q.countUp_eq]
      exact ⟨rfl, rfl⟩
    change (q.tryDeliver S d now id).1.isFifo = _ ∧ (q.tryDeliver S d now id).1.attributes = _
    unfold tryDeliver
    split
    · exact ⟨rfl, rfl⟩
    · split
      · exact hc
      · exact hc

end Steps

/-! ## Runs -/

def runSends (S : Sender) : List (Send × ℤ) → SqsQueue → SqsQueue
  | [], q => q
  | (send, now) :: sends, q => runSends S sends (send.run S q now).1

def sendLog (S : Sender) : List (Send × ℤ) → SqsQueue → List Accepted
  | [], _ => []
  | (send, now) :: sends, q => (send.run S q now).2.toList ++ sendLog S sends (send.run S q now).1

section Bodies

variable {S : Sender} {q : SqsQueue} {now : ℤ} {entry : BatchEntry} {stored : Option Str}

end Bodies

section Logs

variable {S : Sender} {q : SqsQueue}

theorem sendLog_run {sends : List (Send × ℤ)} {start : ℤ} (hf : q.isFifo)
    (ht : (start :: sends.map Prod.snd).Pairwise (· ≤ ·)) :
    Run dedupWindow start (cacheOf q) ((sendLog S sends q).map Accepted.toSent) := by
  induction sends generalizing q start with
  | nil => exact .nil start _
  | cons x sends ih =>
    obtain ⟨send, now⟩ := x
    obtain ⟨hn, htl⟩ := pairwise_cons.mp ht
    have hn : start ≤ now := hn now mem_cons_self
    have hst := send.step S hf now
    have hr := ih ((send.run_settings S q now).1.trans hf) htl
    rw [sendLog, map_append]
    generalize send.run S q now = r at hst hr ⊢
    obtain ⟨q', record⟩ := r
    dsimp only at hst hr ⊢
    cases hst with
    | refused hc => exact .quiet hn hc hr
    | @repeated dedupId group e hl hm hc =>
      rw [hc] at hr
      have hs : (accepted q q' now true dedupId group e.value).toSent =
          ⟨now, dedupCacheKey q dedupId group, true, some e, false, e.value⟩ := by
        simp [accepted, hl, hm]
      rw [toList_some, map_singleton, hs]
      exact .repeated hn hl hr
    | @stored dedupId group m hl hid hm hc =>
      rw [hc] at hr
      have hs : (accepted q q' now true dedupId group (m.messageId, m.sequenceNumber)).toSent =
          ⟨now, dedupCacheKey q dedupId group, true, none, true, (m.messageId, m.sequenceNumber)⟩ := by
        simp [accepted, hl, hm]
      rw [toList_some, map_singleton, hs]
      exact .stored hn hl hr
    | @bypassed dedupId group m hid hm hc =>
      rw [hc] at hr
      have hs : (accepted q q' now false dedupId group (m.messageId, m.sequenceNumber)).toSent =
          ⟨now, dedupCacheKey q dedupId group, false, (cacheOf q).liveAt now
            (dedupCacheKey q dedupId group), true,
            (m.messageId, m.sequenceNumber)⟩ := by
        simp [accepted, hm]
      rw [toList_some, map_singleton, hs]
      exact .bypassed _ hn hr

theorem drawn_sendLog (hf : q.isFifo) (sends : List (Send × ℤ)) :
    ((drawn ((sendLog S sends q).map Accepted.toSent)).map Prod.fst).Sublist
      (sends.map fun s => s.1.id) := by
  induction sends generalizing q with
  | nil => exact nil_sublist _
  | cons x sends ih =>
    obtain ⟨send, now⟩ := x
    have hst := send.step S hf now
    have hr := ih ((send.run_settings S q now).1.trans hf)
    rw [sendLog, map_append]
    generalize send.run S q now = r at hst hr ⊢
    obtain ⟨q', _ | a⟩ := r
    · exact hr.cons _
    · rw [toList_some, map_singleton, singleton_append]
      rcases hs : a.stored with _ | _
      · rw [Run.drawn_cons_of_not hs]
        exact hr.cons _
      · rw [Run.drawn_cons_of_stored hs, map_cons, hst.value_id hs]
        exact hr.cons_cons _

theorem key_sendLog (hf : q.isFifo) (sends : List (Send × ℤ)) :
    ∀ a ∈ sendLog S sends q, a.key = dedupCacheKey q a.dedupId a.group := by
  induction sends generalizing q with
  | nil => nofun
  | cons x sends ih =>
    obtain ⟨send, now⟩ := x
    obtain ⟨hf', hat⟩ := send.run_settings S q now
    intro a ha
    rcases mem_append.mp ha with ha | ha
    · have hs := send.step S hf now
      rw [mem_toList.mp ha] at hs
      exact hs.key_eq
    · rw [ih (hf'.trans hf) a ha]
      rw [dedupCacheKey, hat]
      rfl

/-- Two accepted sends with one deduplication id, in one group if the queue deduplicates by group. -/
def SameScope (q : SqsQueue) (a b : Accepted) : Prop :=
  a.dedupId = b.dedupId ∧
    (q.attributes.get "DeduplicationScope" = some "messageGroup".toList → a.group = b.group)

theorem SameScope.key_eq {a b : Accepted} (h : SameScope q a b) :
    dedupCacheKey q a.dedupId a.group = dedupCacheKey q b.dedupId b.group := by
  unfold dedupCacheKey
  split
  · next hs => rw [h.1, h.2 (by simpa using hs)]
  · exact h.1

/-- **Deduplication in a FIFO queue.**  Of two accepted sends with one deduplication id in one scope less
than five minutes apart, at most one enqueues a message and the second reports the first, exactly when
neither is a delivery and what the first repeated, if anything, is still remembered at the second. -/
theorem deduplicated_iff {sends : List (Send × ℤ)} (hfifo : q.isFifo)
    (htimes : (sends.map Prod.snd).Pairwise (· ≤ ·)) (hids : (sends.map fun s => s.1.id).Nodup)
    (hcache : ∀ k e, q.dedupCache.get k = some e → e.messageId ∉ sends.map fun s => s.1.id) :
    (sendLog S sends q).Pairwise fun a b => SameScope q a b → b.at_ - a.at_ < dedupWindow →
      (Once a.toSent b.toSent ↔
        a.checked ∧ b.checked ∧ ∀ e, a.live = some e → b.at_ < e.expiry) := by
  have hd := drawn_sendLog (S := S) hfifo sends
  have hf : Fresh (cacheOf q) ((sendLog S sends q).map Accepted.toSent) := by
    refine ⟨.of_map _ (hids.sublist hd), fun k e he hm => ?_⟩
    obtain ⟨entry, hen, rfl⟩ := map_eq_some_iff.mp he
    exact hcache k entry hen (hd.subset (mem_map_of_mem hm))
  have hr : ∃ start, Run dedupWindow start (cacheOf q) ((sendLog S sends q).map Accepted.toSent) := by
    rcases sends with _ | ⟨x, sends⟩
    · exact ⟨0, .nil 0 _⟩
    · refine ⟨x.2, sendLog_run hfifo (pairwise_cons.mpr ⟨fun t ht => ?_, htimes⟩)⟩
      rcases mem_cons.mp ht with rfl | ht
      · exact le_refl _
      · exact (pairwise_cons.mp htimes).1 t ht
  obtain ⟨start, hr⟩ := hr
  have ho := pairwise_map.mp (hr.once_iff hf)
  refine ho.imp_of_mem fun {a b} ha hb h hs hw => h ?_ hw
  rw [key_sendLog hfifo sends a ha, key_sendLog hfifo sends b hb]
  exact hs.key_eq

end Logs

namespace Example

def sender : Sender where
  tools := ⟨id, id, fun _ => [], fun _ => [], Char.isAlphanum⟩
  kms := none
  region := []
  accountId := []

def fifoQueue : SqsQueue := .create "q.fifo" true

def delivery (body : String) : Delivery := ⟨body.toList, [], some ['g'], some ['d']⟩

/-- **A delivery that is not deduplicated.**  A message and, a second later, a delivery with its
deduplication id in its group: both are in the queue, and the delivery reports nothing. -/
theorem delivered_twice :
    (sendLog sender [(.message ⟨['x'], some ['g'], some ['d'], none, [], []⟩ ['a'], 0),
      (.delivery (delivery "x") ['b'], seconds 1)] fifoQueue).map
        (fun s => (s.dedupId, s.group, s.stored, s.checked)) =
      [(['d'], some ['g'], true, true), (['d'], some ['g'], true, false)] ∧
    (runSends sender [(.message ⟨['x'], some ['g'], some ['d'], none, [], []⟩ ['a'], 0),
      (.delivery (delivery "x") ['b'], seconds 1)] fifoQueue).messages.map SqsMessage.messageId =
      [['a'], ['b']] := by
  decide +kernel

/-- A message, and a minute later an entry of a batch with its deduplication id. -/
def twoSends : List (Send × ℤ) :=
  [(.message ⟨['x'], some ['g'], some ['d'], none, [], []⟩ ['a'], 0),
    (.entry ⟨some ['1'], some ['y'], some ['h'], some ['d'], none, [], []⟩ none ['b'], seconds 60)]

end Example

open Example

theorem deduplicated_iff_batch : ∃ a b, sendLog Example.sender Example.twoSends Example.fifoQueue = [a, b] ∧
    Once a.toSent b.toSent := by
  have hev : (sendLog sender twoSends fifoQueue).map
      (fun s => (s.at_, s.dedupId, s.checked, s.live.map Entry.expiry)) =
        [(0, ['d'], true, none), (seconds 60, ['d'], true, some (seconds 300))] := by
    decide +kernel
  have hlg := @deduplicated_iff sender fifoQueue twoSends rfl (by decide)
    (by decide) nofun
  rcases hs : sendLog sender twoSends fifoQueue with _ | ⟨a, _ | ⟨b, _ | _⟩⟩
  all_goals rw [hs] at hev hlg
  · cases hev
  · simp at hev
  · simp only [map_cons, map_nil, List.cons.injEq, Prod.mk.injEq, and_true] at hev
    obtain ⟨⟨hat, hid, hch, hl⟩, ha, hi, hc, -⟩ := hev
    have ho := (pairwise_cons.mp hlg).1 b (mem_singleton_self b)
    refine ⟨a, b, rfl, (ho ⟨hid.trans hi.symm, ?_⟩ ?_).mpr ⟨hch, hc, ?_⟩⟩
    · intro hsc
      cases hsc
    · rw [hat, ha]
      decide
    · intro e he
      rw [he] at hl
      cases hl
  · simp at hev

end Fakecloud.Sqs
