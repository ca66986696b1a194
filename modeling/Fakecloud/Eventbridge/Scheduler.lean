import Fakecloud.Eventbridge.Schedule
import Fakecloud.Lib.Latch
import Fakecloud.Lib.OrdMap

/-!
# EventBridge: the scheduler

* `tick` — one firing pass over the rules of all accounts, `run` — the firings of a sequence of ticks;
* `Fires` — what a pass fires of the cron rules is what a latch lets pass of the rules that are due.

The latch is `cron_last_minute`.  It is keyed by bus and rule name and remembers hour and minute.
-/

namespace Fakecloud.Eventbridge

open Text List Latch

/-! ## Rules -/

structure EventTarget where
  id : Str
  arn : Str
deriving DecidableEq

structure EventRule where
  name : Str
  arn : Str
  scheduleExpression : Option Str
  state : Str
  targets : List EventTarget
  lastFired : Option DateTime
deriving DecidableEq

abbrev RuleKey := Str × Str

def RuleKey.cmp : RuleKey → RuleKey → Ordering := compareLex (compareOn Prod.fst) (compareOn Prod.snd)

instance : Std.TransCmp RuleKey.cmp := inferInstanceAs (Std.TransCmp (compareLex _ _))

instance : Std.LawfulEqCmp RuleKey.cmp where
  eq_of_compare {a b} h := by
    have h' : (compare a.1 b.1).then (compare a.2 b.2) = .eq := h
    rw [Ordering.then_eq_eq] at h'
    exact Prod.ext (Std.LawfulEqCmp.eq_of_compare h'.1) (Std.LawfulEqCmp.eq_of_compare h'.2)

structure EventBridgeState where
  region : Str
  rules : OrdMap RuleKey EventRule RuleKey.cmp

/-- The accounts, in the order in which the hash map goes through them. -/
structure Accounts where
  entries : List (Str × EventBridgeState)
  nodup : (entries.map Prod.fst).Nodup

/-- The schedule of a rule that the scheduler looks at: enabled, with targets, well formed. -/
def EventRule.schedule (rule : EventRule) : Option Schedule :=
  if rule.state ≠ "ENABLED" then none
  else
    match rule.scheduleExpression with
    | none => none
    | some expr => if rule.targets.isEmpty then none else parseSchedule expr

/-! ## One pass -/

/-- What is remembered of the cron rules between ticks: hour and minute. -/
abbrev CronLastMinute := RuleKey → Option (ℕ × ℕ)

/-- A pass reads the clock once for itself and again whenever it matches a cron expression. -/
structure Tick where
  now : DateTime
  clock : Str → RuleKey → DateTime

/-- A rule that fires.  The key says which one it is; the event carries the time. -/
structure Firing where
  account : Str
  region : Str
  key : RuleKey
  name : Str
  ruleArn : Str
  targets : List EventTarget
  time : DateTime
deriving DecidableEq

structure Pass where
  rules : OrdMap RuleKey EventRule RuleKey.cmp
  lastMinute : CronLastMinute
  toFire : List Firing

def shouldFire (t : Tick) (account : Str) (key : RuleKey) (rule : EventRule) (last : CronLastMinute) :
    Schedule → Bool × CronLastMinute
  | .rate secs =>
    match rule.lastFired with
    | some fired => (secs * 10 ^ 9 ≤ t.now - fired, last)
    | none => (true, last)
  | .cron cron =>
    if !cronMatchesAt cron (t.clock account key) then (false, last)
    else if last key = some t.now.timeOfDay then (false, last)
    else (true, Function.update last key (some t.now.timeOfDay))

def visitRule (t : Tick) (account region : Str) (p : Pass) (key : RuleKey) : Pass :=
  match p.rules.get key with
  | none => p
  | some rule =>
    match rule.schedule with
    | none => p
    | some schedule =>
      let (fire, last) := shouldFire t account key rule p.lastMinute schedule
      if fire then
        { rules := p.rules.modify key fun r => { r with lastFired := some t.now }
          lastMinute := last
          toFire := p.toFire ++ [⟨account, region, key, rule.name, rule.arn, rule.targets, t.now⟩] }
      else { p with lastMinute := last }

/-- The rules of an account, in the order of their keys. -/
def visitAccount (t : Tick) (account : Str) (state : EventBridgeState) (last : CronLastMinute) : Pass :=
  state.rules.keys.foldl (visitRule t account state.region) ⟨state.rules, last, []⟩

def tickEntries (t : Tick) : CronLastMinute → List (Str × EventBridgeState) →
      List (Str × EventBridgeState) × CronLastMinute × List Firing
  | last, [] => ([], last, [])
  | last, (account, state) :: entries =>
    let p := visitAccount t account state last
    let (entries', last', fired) := tickEntries t p.lastMinute entries
    ((account, { state with rules := p.rules }) :: entries', last', p.toFire ++ fired)

theorem tickEntries_ids (t : Tick) (last : CronLastMinute) (entries : List (Str × EventBridgeState)) :
    (tickEntries t last entries).1.map Prod.fst = entries.map Prod.fst := by
  induction entries generalizing last with
  | nil => rfl
  | cons e entries ih => rw [tickEntries, map_cons, map_cons, ih]

/-- `Scheduler::tick`, up to the delivery of what fires. -/
def tick (accounts : Accounts) (last : CronLastMinute) (t : Tick) : Accounts × CronLastMinute × List Firing :=
  let r := tickEntries t last accounts.entries
  (⟨r.1, (tickEntries_ids t last accounts.entries).symm ▸ accounts.nodup⟩, r.2)

def runFrom (accounts : Accounts) (last : CronLastMinute) : List Tick → List Firing
  | [] => []
  | t :: ticks =>
    let (accounts', last', fired) := tick accounts last t
    fired ++ runFrom accounts' last' ticks

def run (accounts : Accounts) (ticks : List Tick) : List Firing :=
  runFrom accounts (fun _ => none) ticks

/-! ## What is due -/

def EventRule.cron? (rule : EventRule) : Option CronExpr :=
  match rule.schedule with
  | some (.cron cron) => some cron
  | _ => none

/-- A cron rule whose expression matches at a tick. -/
structure Offer where
  account : Str
  key : RuleKey
  time : DateTime

def Firing.offer (f : Firing) : Offer := ⟨f.account, f.key, f.time⟩

/-- The cron expressions of the rules. -/
abbrev Crons := Str → RuleKey → Option CronExpr

def offerAt (crons : Crons) (t : Tick) (account : Str) (key : RuleKey) : List Offer :=
  match crons account key with
  | some c => if cronMatchesAt c (t.clock account key) then [⟨account, key, t.now⟩] else []
  | none => []

def shape (entries : List (Str × EventBridgeState)) : List (Str × List RuleKey) :=
  entries.map fun e => (e.1, e.2.rules.keys)

/-- What is due at a tick, in the order in which it is looked at. -/
def offers (crons : Crons) (keys : List (Str × List RuleKey)) (t : Tick) : List Offer :=
  keys.flatMap fun e => e.2.flatMap (offerAt crons t e.1)

/-- The latch on offers: by key, with hour and minute as the value. -/
abbrev passedOffers : CronLastMinute → List Offer → List Offer :=
  Latch.passed Offer.key fun o => o.time.timeOfDay

abbrev afterOffers : CronLastMinute → List Offer → CronLastMinute :=
  Latch.after Offer.key fun o => o.time.timeOfDay

/-- What fires of the cron rules is what the latch lets pass of what is due. -/
structure Fires (crons : Crons) (last last' : CronLastMinute) (fired : List Firing)
    (due : List Offer) : Prop where
  remembered : last' = afterOffers last due
  passed : (fired.filter fun f => (crons f.account f.key).isSome).map Firing.offer =
    passedOffers last due

namespace Fires

variable {crons : Crons} {last last' last'' : CronLastMinute} {fired fired' : List Firing}
  {due due' : List Offer}

theorem nil : Fires crons last last [] [] := ⟨rfl, rfl⟩

theorem append (h : Fires crons last last' fired due) (h' : Fires crons last' last'' fired' due') :
    Fires crons last last'' (fired ++ fired') (due ++ due') where
  remembered := by
    rw [h'.remembered, h.remembered]
    exact (foldl_append).symm
  passed := by
    rw [filter_append, map_append, h.passed, h'.passed, h.remembered]
    exact (passed_append due due').symm

end Fires

/-! ## A pass fires what the latch lets pass -/

section Passes

variable {crons : Crons} {t : Tick} {account : Str} {key : RuleKey}

theorem shouldFire_fires {rule : EventRule} {schedule : Schedule} {last last' : CronLastMinute}
    {fire : Bool} (hc : crons account key = rule.cron?) (hd : rule.schedule = some schedule)
    (h : shouldFire t account key rule last schedule = (fire, last')) (f : Firing)
    (hf : f.offer = ⟨account, key, t.now⟩) :
    Fires crons last last' (if fire then [f] else []) (offerAt crons t account key) := by
  obtain ⟨rfl, rfl, -⟩ : f.account = account ∧ f.key = key ∧ _ := by
    simpa [Firing.offer] using hf
  cases schedule with
  | rate secs =>
    have hn : crons f.account f.key = none := by rw [hc, EventRule.cron?, hd]
    obtain rfl : last = last' := by
      have hsn := congrArg Prod.snd h
      rcases hfr : rule.lastFired with _ | fired <;> simpa [shouldFire, hfr] using hsn
    refine ⟨by simp [offerAt, hn, Latch.after], ?_⟩
    cases fire <;> simp [offerAt, hn, passed]
  | cron c =>
    have hs : crons f.account f.key = some c := by rw [hc, EventRule.cron?, hd]
    by_cases hm : cronMatchesAt c (t.clock f.account f.key)
    · by_cases hl : last f.key = some t.now.timeOfDay
      · obtain ⟨rfl, rfl⟩ : false = fire ∧ last = last' := by
          simpa [shouldFire, hl] using h
        have hsm : offer Offer.key (fun o => o.time.timeOfDay) last
            ⟨f.account, f.key, t.now⟩ = last := offer_of_eq hl
        exact ⟨by simp [offerAt, hs, hm, Latch.after, hsm],
          by simp [offerAt, hs, hm, passed, hl]⟩
      · obtain ⟨rfl, rfl⟩ : true = fire ∧ _ = last' := by
          simpa [shouldFire, hm, hl] using h
        exact ⟨by simp [offerAt, hs, hm, Latch.after, Latch.offer],
          by simp [offerAt, hs, hm, passed, hl, hf]⟩
    · obtain ⟨rfl, rfl⟩ : false = fire ∧ last = last' := by
        simpa [shouldFire, hm] using h
      exact ⟨by simp [offerAt, hs, hm, Latch.after],
        by simp [offerAt, hs, hm, passed]⟩

def Keeps (crons : RuleKey → Option CronExpr) (rules : OrdMap RuleKey EventRule RuleKey.cmp) : Prop :=
  ∀ k, (rules.get k).bind EventRule.cron? = crons k

theorem visitRule_fires (t : Tick) (region : Str) (key : RuleKey) {p : Pass}
    (hp : Keeps (crons account) p.rules) :
    ∃ fired, (visitRule t account region p key).toFire = p.toFire ++ fired ∧
      Fires crons p.lastMinute (visitRule t account region p key).lastMinute fired
        (offerAt crons t account key) ∧ Keeps (crons account) (visitRule t account region p key).rules ∧
      (visitRule t account region p key).rules.keys = p.rules.keys := by
  have hk := hp key
  unfold visitRule
  rcases hg : p.rules.get key with _ | rule
  · have hn : crons account key = none := by rw [← hk, hg]; rfl
    exact ⟨[], by simp, by simpa [offerAt, hn] using Fires.nil, hp, rfl⟩
  · have hc : crons account key = rule.cron? := by rw [← hk, hg]; rfl
    dsimp only
    rcases hd : rule.schedule with _ | schedule
    · have hn : crons account key = none := by rw [hc, EventRule.cron?, hd]
      exact ⟨[], by simp, by simpa [offerAt, hn] using Fires.nil, hp, rfl⟩
    · dsimp only
      rcases hfr : shouldFire t account key rule p.lastMinute schedule with ⟨fire, last⟩
      have hf := shouldFire_fires hc hd hfr
        ⟨account, region, key, rule.name, rule.arn, rule.targets, t.now⟩ rfl
      cases fire with
      | false => exact ⟨[], by simp, hf, hp, rfl⟩
      | true =>
        refine ⟨_, rfl, hf, fun k => ?_, p.rules.keys_modify _ _⟩
        rw [← hp k]
        exact p.rules.get_modify_bind key k fun _ => rfl

theorem visitRules_fires (t : Tick) (region : Str) (keys : List RuleKey) {p : Pass}
    (hp : Keeps (crons account) p.rules) :
    ∃ fired, (keys.foldl (visitRule t account region) p).toFire = p.toFire ++ fired ∧
      Fires crons p.lastMinute (keys.foldl (visitRule t account region) p).lastMinute fired
        (keys.flatMap (offerAt crons t account)) ∧
      Keeps (crons account) (keys.foldl (visitRule t account region) p).rules ∧
      (keys.foldl (visitRule t account region) p).rules.keys = p.rules.keys := by
  induction keys generalizing p with
  | nil => exact ⟨[], by simp, .nil, hp, rfl⟩
  | cons key keys ih =>
    obtain ⟨fired, hfr, hf, hk, hky⟩ := visitRule_fires t region key hp
    obtain ⟨fired', hfr', hf', hk', hky'⟩ := ih hk
    refine ⟨fired ++ fired', ?_, hf.append hf', hk', hky'.trans hky⟩
    rw [foldl_cons, hfr', hfr, append_assoc]

theorem tickEntries_fires (t : Tick) (last : CronLastMinute) {entries : List (Str × EventBridgeState)}
    (h : ∀ e ∈ entries, Keeps (crons e.1) e.2.rules) :
    Fires crons last (tickEntries t last entries).2.1 (tickEntries t last entries).2.2
        (offers crons (shape entries) t) ∧
          (∀ e ∈ (tickEntries t last entries).1, Keeps (crons e.1) e.2.rules) ∧
      shape (tickEntries t last entries).1 = shape entries := by
  induction entries generalizing last with
  | nil => exact ⟨.nil, by simp [tickEntries], rfl⟩
  | cons e entries ih =>
    obtain ⟨account, state⟩ := e
    obtain ⟨hh, hr⟩ := forall_mem_cons.mp h
    obtain ⟨fired, hfr, hf, hk, hky⟩ :=
      visitRules_fires t state.region state.rules.keys (p := ⟨state.rules, last, []⟩) hh
    obtain ⟨hf', hk', hs⟩ := ih (visitAccount t account state last).lastMinute hr
    refine ⟨?_, forall_mem_cons.mpr ⟨hk, hk'⟩, ?_⟩
    · have ha := hf.append hf'
      rw [← nil_append fired, ← hfr] at ha
      exact ha
    · exact congrArg₂ List.cons (Prod.ext rfl hky) hs

/-- **A run fires what the latch lets pass.** -/
theorem runFrom_fires (accounts : Accounts) (last : CronLastMinute) (ticks : List Tick)
    (h : ∀ e ∈ accounts.entries, Keeps (crons e.1) e.2.rules) :
    ∃ last', Fires crons last last' (runFrom accounts last ticks)
      (ticks.flatMap (offers crons (shape accounts.entries))) := by
  induction ticks generalizing accounts last with
  | nil => exact ⟨last, .nil⟩
  | cons t ticks ih =>
    obtain ⟨hf, hk, hs⟩ := tickEntries_fires t last h
    obtain ⟨last', hf'⟩ := ih (tick accounts last t).1 (tick accounts last t).2.1 hk
    rw [show shape (tick accounts last t).1.entries = shape accounts.entries from hs] at hf'
    exact ⟨last', hf.append hf'⟩

end Passes

end Fakecloud.Eventbridge
