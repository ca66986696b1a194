import Fakecloud.Eventbridge.Scheduler

/-!
# EventBridge: firing once per minute

A cron rule fires once in each minute that has a tick and matches its expression exactly when, among the
rules of its bus and rule name in all accounts, no two match in one such minute and two such minutes that
follow each other are at different times of the day (`firesOncePerMinute_iff`).
-/

namespace Fakecloud.Eventbridge

open Text List Option

/-! ## The rules of the accounts -/

def Scheduled (accounts : Accounts) (account : Str) (key : RuleKey) (cron : CronExpr) : Prop :=
  ∃ state, (account, state) ∈ accounts.entries ∧ ∃ rule, state.rules.get key = some rule ∧
    rule.cron? = some cron

def Accounts.crons (accounts : Accounts) : Crons := fun account key =>
  (accounts.entries.lookup account).bind fun state => (state.rules.get key).bind EventRule.cron?

theorem crons_eq_some_iff {accounts : Accounts} {account : Str} {key : RuleKey} {cron : CronExpr} :
    accounts.crons account key = some cron ↔ Scheduled accounts account key cron := by
  simp only [Accounts.crons, Scheduled, bind_eq_some_iff, lookup_eq_some_iff accounts.nodup]

theorem Accounts.keeps (accounts : Accounts) :
    ∀ e ∈ accounts.entries, Keeps (accounts.crons e.1) e.2.rules := by
  intro e he k
  rw [crons, (lookup_eq_some_iff accounts.nodup).mpr he]
  rfl

/-! ## What is due over a run -/

/-- The clock stays in one minute while a pass goes through the rules. -/
def Tick.WithinMinute (t : Tick) : Prop :=
  ∀ account key, (t.clock account key).minutes = t.now.minutes

def dueOver (accounts : Accounts) (ticks : List Tick) : List Offer :=
  ticks.flatMap (offers accounts.crons (shape accounts.entries))

section Due

variable {accounts : Accounts} {ticks : List Tick}

theorem mem_offers {t : Tick} (ht : t.WithinMinute) {o : Offer} :
    o ∈ offers accounts.crons (shape accounts.entries) t ↔
      o.time = t.now ∧ ∃ c, Scheduled accounts o.account o.key c ∧ cronMatchesAt c t.now := by
  obtain ⟨account, key, time⟩ := o
  have hat : ∀ a k, (⟨account, key, time⟩) ∈ offerAt accounts.crons t a k ↔
      (account = a ∧ key = k) ∧ time = t.now ∧ ∃ c, Scheduled accounts account key c ∧
        cronMatchesAt c t.now := by
    intro a k
    rw [offerAt]
    by_cases hak : account = a ∧ key = k
    · obtain ⟨rfl, rfl⟩ := hak
      rcases hc : accounts.crons account key with _ | c
      · simp [← crons_eq_some_iff, hc]
      · simp only [cronMatchesAt_congr c (ht account key), ← crons_eq_some_iff, hc]
        by_cases hm : cronMatchesAt c t.now <;> simp [hm]
    · have hne : ∀ c, (⟨account, key, time⟩ : Offer) ∉
          if cronMatchesAt c (t.clock a k) then [(⟨a, k, t.now⟩)] else [] := by
        intro c hmm
        split at hmm
        · rw [mem_singleton, Offer.mk.injEq] at hmm
          exact hak ⟨hmm.1, hmm.2.1⟩
        · cases hmm
      rcases accounts.crons a k with _ | c
      · simp [hak]
      · simpa [hak] using hne c
  simp only [offers, mem_flatMap, hat]
  constructor
  · rintro ⟨e, -, k, -, -, h⟩
    exact h
  · rintro ⟨htm, c, hc, hmt⟩
    obtain ⟨state, hs, rule, hr, hcr⟩ := hc
    exact ⟨(account, state.rules.keys), mem_map_of_mem hs, key,
      OrdMap.mem_keys_of_get hr, ⟨rfl, rfl⟩, htm, c, ⟨state, hs, rule, hr, hcr⟩, hmt⟩

theorem mem_dueOver (htc : ∀ t ∈ ticks, t.WithinMinute) {o : Offer} :
    o ∈ dueOver accounts ticks ↔ ∃ t ∈ ticks, o.time = t.now ∧
      ∃ c, Scheduled accounts o.account o.key c ∧ cronMatchesAt c t.now := by
  rw [dueOver, mem_flatMap]
  exact exists_congr fun t => and_congr_right fun ht => mem_offers (htc t ht)

theorem dueOver_sorted (htc : ∀ t ∈ ticks, t.WithinMinute) (hs : ticks.Pairwise fun t t' => t.now ≤ t'.now) :
    (dueOver accounts ticks).Pairwise fun o o' => o.time.minutes ≤ o'.time.minutes := by
  rw [dueOver, pairwise_flatMap]
  constructor
  · intro t ht
    refine pairwise_of_forall_mem_list fun o ho o' ho' => le_of_eq ?_
    rw [((mem_offers (htc t ht)).mp ho).1, ((mem_offers (htc t ht)).mp ho').1]
  · refine hs.imp_of_mem fun {t t'} ht ht' hle o ho o' ho' => ?_
    rw [((mem_offers (htc t ht)).mp ho).1, ((mem_offers (htc t' ht')).mp ho').1]
    exact Nat.div_le_div_right hle

end Due

/-! ## Counting the firings -/

def firedIn (fired : List Firing) (account : Str) (key : RuleKey) (minute : ℕ) : ℕ :=
  fired.countP fun f => f.account = account ∧ f.key = key ∧ f.time.minutes = minute

def matchesMinute (cron : CronExpr) (minute : ℕ) : Bool := cronMatchesAt cron (minute * (60 * 10 ^ 9))

/-- Every scheduled rule fires once in each minute that has a tick and matches, and in no other. -/
def FiresOncePerMinute (accounts : Accounts) (ticks : List Tick) : Prop :=
  ∀ account key cron, Scheduled accounts account key cron → ∀ minute,
    firedIn (run accounts ticks) account key minute =
      if (∃ t ∈ ticks, t.now.minutes = minute) ∧ matchesMinute cron minute then 1 else 0

/-- Some account has a rule of this name that matches at the moment. -/
def DueAt (accounts : Accounts) (key : RuleKey) (now : DateTime) : Prop :=
  ∃ account cron, Scheduled accounts account key cron ∧ cronMatchesAt cron now

/-- What bus, rule name, hour and minute tell apart. -/
structure ToldApart (accounts : Accounts) (ticks : List Tick) (key : RuleKey) : Prop where
  /-- No two accounts have a rule of this name that matches at a tick. -/
  account : ∀ t ∈ ticks, ∀ a c a' c', Scheduled accounts a key c → Scheduled accounts a' key c' →
    cronMatchesAt c t.now → cronMatchesAt c' t.now → a = a'
  /-- Minutes with a tick and a match that follow each other are at different times of the day. -/
  minute : ∀ t ∈ ticks, ∀ t' ∈ ticks, t.now.minutes < t'.now.minutes → DueAt accounts key t.now →
    DueAt accounts key t'.now →
    (∀ u ∈ ticks, t.now.minutes < u.now.minutes → DueAt accounts key u.now →
      t'.now.minutes ≤ u.now.minutes) → t.now.timeOfDay ≠ t'.now.timeOfDay

section Counting

variable {accounts : Accounts} {ticks : List Tick} {key : RuleKey} {cron : CronExpr} {account : Str}

/-- The rules of one name, as one latch lets them pass. -/
def passedDue (accounts : Accounts) (ticks : List Tick) (key : RuleKey) : List Offer :=
  Latch.passedOne (fun o => o.time.timeOfDay) none
    ((dueOver accounts ticks).filter fun o => o.key = key)

theorem firedIn_run (h : Scheduled accounts account key cron)
    (minute : ℕ) : firedIn (run accounts ticks) account key minute =
      ((passedDue accounts ticks key).filter fun o => o.time.minutes = minute).countP
        fun o => o.account = account := by
  obtain ⟨last, hf⟩ := runFrom_fires accounts (fun _ => none) ticks accounts.keeps
  have hc : (accounts.crons account key).isSome := by rw [crons_eq_some_iff.mpr h]; rfl
  have hp : passedDue accounts ticks key =
      (((run accounts ticks).filter fun f => (accounts.crons f.account f.key).isSome).map
        Firing.offer).filter fun o => o.key = key := by
    rw [run, hf.passed, Latch.filter_passed]
    rfl
  rw [hp, countP_filter, countP_filter, countP_map, countP_filter]
  refine countP_congr fun f _ => ?_
  simp only [Function.comp_apply, Firing.offer, Bool.and_eq_true, decide_eq_true_iff]
  constructor
  · rintro ⟨rfl, rfl, rfl⟩
    simpa using hc
  · rintro ⟨⟨⟨ha, hm⟩, hk⟩, -⟩
    exact ⟨of_decide_eq_true ha, of_decide_eq_true hk, of_decide_eq_true hm⟩

theorem matchesMinute_minutes (cron : CronExpr) (t : DateTime) :
    matchesMinute cron t.minutes = cronMatchesAt cron t :=
  cronMatchesAt_congr cron (Nat.mul_div_cancel _ (by norm_num))

variable (htc : ∀ t ∈ ticks, t.WithinMinute)
include htc

theorem exists_due_iff (h : Scheduled accounts account key cron) (minute : ℕ) :
    (∃ o ∈ (dueOver accounts ticks).filter fun o => o.key = key, o.account = account ∧
      o.time.minutes = minute) ↔
      (∃ t ∈ ticks, t.now.minutes = minute) ∧ matchesMinute cron minute := by
  constructor
  · rintro ⟨o, ho, rfl, rfl⟩
    obtain ⟨hmm, hk⟩ := mem_filter.mp ho
    obtain ⟨t, ht, htm, c, hc, hm⟩ := (mem_dueOver htc).mp hmm
    obtain rfl : o.key = key := by simpa using hk
    obtain rfl : c = cron := by
      simpa [crons_eq_some_iff.mpr h] using (crons_eq_some_iff.mpr hc).symm
    rw [htm]
    exact ⟨⟨t, ht, rfl⟩, (matchesMinute_minutes c t.now).trans hm⟩
  · rintro ⟨⟨t, ht, rfl⟩, hm⟩
    refine ⟨⟨account, key, t.now⟩, mem_filter.mpr ⟨(mem_dueOver htc).mpr ?_, by simp⟩,
      rfl, rfl⟩
    exact ⟨t, ht, rfl, cron, h, (matchesMinute_minutes cron t.now).symm.trans hm⟩

theorem firesOncePerMinute_iff_once : FiresOncePerMinute accounts ticks ↔
      ∀ key, Latch.Once Offer.account (fun o => o.time.minutes)
        ((dueOver accounts ticks).filter fun o => o.key = key) (passedDue accounts ticks key) := by
  constructor
  · intro h key account minute
    rcases hc : accounts.crons account key with _ | cron
    · -- an account without such a rule offers nothing
      have hn : ∀ o ∈ (dueOver accounts ticks).filter fun o => o.key = key, o.account ≠ account := by
        rintro o ho rfl
        obtain ⟨hm, hk⟩ := mem_filter.mp ho
        obtain ⟨-, -, -, c, hs, -⟩ := (mem_dueOver htc).mp hm
        obtain rfl : o.key = key := by simpa using hk
        rw [crons_eq_some_iff.mpr hs] at hc
        cases hc
      rw [if_neg fun ⟨o, ho, heq, _⟩ => hn o ho heq, countP_eq_zero]
      intro o ho
      simpa using hn o ((Latch.passedOne_sublist _ _).subset (mem_of_mem_filter ho))
    · have hs := crons_eq_some_iff.mp hc
      rw [← firedIn_run hs, h account key cron hs]
      exact if_congr (exists_due_iff htc hs minute).symm rfl rfl
  · intro h account key cron hs minute
    rw [firedIn_run hs, h key account minute]
    exact if_congr (exists_due_iff htc hs minute) rfl rfl

theorem toldApart_iff : ToldApart accounts ticks key ↔
      let due := (dueOver accounts ticks).filter fun o => o.key = key
      (∀ o ∈ due, ∀ o' ∈ due, o.time.minutes = o'.time.minutes → o.account = o'.account) ∧
        ∀ o ∈ due, ∀ o' ∈ due, o.time.minutes < o'.time.minutes →
          (∀ u ∈ due, o.time.minutes < u.time.minutes → o'.time.minutes ≤ u.time.minutes) →
            o.time.timeOfDay ≠ o'.time.timeOfDay := by
  have hmm : ∀ o, o ∈ (dueOver accounts ticks).filter (fun o => o.key = key) ↔
      o.key = key ∧ ∃ t ∈ ticks, o.time = t.now ∧
        ∃ c, Scheduled accounts o.account key c ∧ cronMatchesAt c t.now := by
    intro o
    rw [mem_filter, mem_dueOver htc, decide_eq_true_eq, and_comm]
    exact and_congr_right fun hk => by rw [hk]
  have hof : ∀ t ∈ ticks, ∀ a c, Scheduled accounts a key c → cronMatchesAt c t.now →
      (⟨a, key, t.now⟩) ∈ (dueOver accounts ticks).filter fun o => o.key = key :=
    fun t ht a c hc hm => (hmm _).mpr ⟨rfl, t, ht, rfl, c, hc, hm⟩
  constructor
  · rintro ⟨ha, hmn⟩
    constructor
    · intro o ho o' ho' heq
      obtain ⟨-, t, ht, htm, c, hc, hm⟩ := (hmm o).mp ho
      obtain ⟨-, t', -, htm', c', hc', hm'⟩ := (hmm o').mp ho'
      rw [htm, htm'] at heq
      exact ha t ht _ c _ c' hc hc' hm ((cronMatchesAt_congr c' heq).trans hm')
    · intro o ho o' ho' hlt hn
      obtain ⟨-, t, ht, htm, c, hc, hm⟩ := (hmm o).mp ho
      obtain ⟨-, t', ht', htm', c', hc', hm'⟩ := (hmm o').mp ho'
      rw [htm, htm'] at hlt hn ⊢
      refine hmn t ht t' ht' hlt ⟨_, c, hc, hm⟩ ⟨_, c', hc', hm'⟩ fun u hu hl hd => ?_
      obtain ⟨a, cu, hcu, hma⟩ := hd
      exact hn _ (hof u hu a cu hcu hma) hl
  · rintro ⟨ha, hmn⟩
    constructor
    · intro t ht a c a' c' hc hc' hm hm'
      exact ha _ (hof t ht a c hc hm) _ (hof t ht a' c' hc' hm') rfl
    · rintro t ht t' ht' hlt ⟨a, c, hc, hm⟩ ⟨a', c', hc', hm'⟩ hn
      refine hmn _ (hof t ht a c hc hm) _ (hof t' ht' a' c' hc' hm') hlt
        fun u hu hl => ?_
      obtain ⟨-, w, hw, hwt, cw, hcw, hmt⟩ := (hmm u).mp hu
      rw [hwt] at hl ⊢
      exact hn w hw hl ⟨_, cw, hcw, hmt⟩

end Counting

/-- **A cron rule fires once per matching minute exactly when bus, rule name, hour and minute tell the
due rules and minutes apart.** -/
theorem firesOncePerMinute_iff (accounts : Accounts) (ticks : List Tick)
    (hsorted : ticks.Pairwise fun t t' => t.now ≤ t'.now) (hticks : ∀ t ∈ ticks, t.WithinMinute) :
    FiresOncePerMinute accounts ticks ↔ ∀ key, ToldApart accounts ticks key := by
  rw [firesOncePerMinute_iff_once hticks]
  refine forall_congr' fun key => ?_
  rw [toldApart_iff hticks]
  refine Latch.once_iff Offer.account (fun o o' heq => ?_) ?_
  · rw [DateTime.timeOfDay, DateTime.hour, DateTime.minute, heq]
    rfl
  exact (dueOver_sorted hticks hsorted).sublist filter_sublist

namespace Example

def target : EventTarget := ⟨"t", "arn:aws:sqs:us-east-1:1:q"⟩

def rule (expr : Str) : EventRule :=
  ⟨"r", "arn:aws:events:us-east-1:1:rule/r", some expr, "ENABLED", [target], none⟩

def key : RuleKey := ("default", "r")

/-- An account with one rule on its default bus. -/
def oneRule (expr : Str) : EventBridgeState :=
  ⟨"us-east-1", OrdMap.empty.insert key (rule expr)⟩

def accounts (ids : List Str) (h : ids.Nodup) (expr : Str) : Accounts :=
  ⟨ids.map fun id => (id, oneRule expr), by simpa [List.map_map, Function.comp_def] using h⟩

def at_ (day second : ℕ) : Tick :=
  ⟨(day * 86400 + second) * 10 ^ 9, fun _ _ => (day * 86400 + second) * 10 ^ 9⟩

def noon : Str := "cron(0 12 * * ? *)"

variable {ids : List Str} {h : ids.Nodup} {c : CronExpr}

theorem scheduled_iff {a : Str} : Scheduled (accounts ids h noon) a key c ↔
      a ∈ ids ∧ c = ⟨.terms [.single 0], .terms [.single 12], .any, .any, .any, .any⟩ := by
  have hrl : (oneRule noon).rules.get key = some (rule noon) := OrdMap.get_insert_self _ _ _
  have hcr : (rule noon).cron? =
      some ⟨.terms [.single 0], .terms [.single 12], .any, .any, .any, .any⟩ := by decide +kernel
  constructor
  · rintro ⟨state, hs, r, hr, hc⟩
    obtain ⟨id, hid, heq⟩ := mem_map.mp hs
    obtain ⟨rfl, rfl⟩ := Prod.mk.injEq .. ▸ heq
    rw [hrl, some.injEq] at hr
    subst hr
    rw [hcr, some.injEq] at hc
    exact ⟨hid, hc.symm⟩
  · rintro ⟨ha, rfl⟩
    exact ⟨oneRule noon, mem_map_of_mem ha, rule noon, hrl, hcr⟩

/-- A daily rule fires on the first day only, and of two accounts only one fires its rule. -/
theorem fires_once_ever :
    (¬ FiresOncePerMinute (accounts [['1']] (by simp) noon) [at_ 20000 43200, at_ 20001 43200] ∧
      ¬ FiresOncePerMinute (accounts [['1'], ['2']] (by simp) noon) [at_ 20000 43200]) ∧
      firedIn (run (accounts [['1']] (by simp) noon) [at_ 20000 43200, at_ 20001 43200])
        ['1'] key (20001 * 1440 + 720) = 0 := by
  have hd : firedIn (run (accounts [['1']] (by simp) noon) [at_ 20000 43200, at_ 20001 43200])
      ['1'] key (20001 * 1440 + 720) = 0 := by decide +kernel
  refine ⟨⟨fun h => ?_, fun h => ?_⟩, hd⟩
  · have := h ['1'] key _ (scheduled_iff.mpr ⟨by simp, rfl⟩) (20001 * 1440 + 720)
    rw [if_pos ⟨⟨at_ 20001 43200, by simp, by decide +kernel⟩, by decide +kernel⟩] at this
    cases this
  · have := h ['2'] key _ (scheduled_iff.mpr ⟨by simp, rfl⟩) (20000 * 1440 + 720)
    cases this

theorem key_of_scheduled {a : Str} {k : RuleKey}
    (hsc : Scheduled (accounts ids h noon) a k c) : k = key := by
  obtain ⟨state, hs, r, hr, -⟩ := hsc
  obtain ⟨id, -, heq⟩ := mem_map.mp hs
  obtain ⟨-, rfl⟩ := Prod.mk.injEq .. ▸ heq
  have hm := OrdMap.mem_keys_of_get hr
  rwa [show (oneRule noon).rules.keys = [key] from rfl, mem_singleton] at hm

end Example

open Example in
/-- Three ticks around noon: two of them in the minute that matches. -/
theorem firesOncePerMinute_noon :
    FiresOncePerMinute (accounts [['1']] (by simp) noon)
      [at_ 20000 43199, at_ 20000 43200, at_ 20000 43201] := by
  refine (firesOncePerMinute_iff _ _ (by decide) ?_).mpr fun k => ⟨?_, ?_⟩
  · intro t ht a k
    fin_cases ht <;> rfl
  · intro t _ a c a' c' hc hc' _ _
    obtain rfl := key_of_scheduled hc
    have ha := (scheduled_iff.mp hc).1
    have ha' := (scheduled_iff.mp hc').1
    rw [mem_singleton.mp ha, mem_singleton.mp ha']
  · rintro t ht t' ht' hlt ⟨a, c, hc, hm⟩ _ _
    -- the only tick of an earlier minute is the one before noon
    obtain rfl := key_of_scheduled hc
    obtain ⟨-, rfl⟩ := scheduled_iff.mp hc
    fin_cases ht
    · exact absurd hm (by decide +kernel)
    · revert hlt
      fin_cases ht' <;> decide
    · revert hlt
      fin_cases ht' <;> decide

end Fakecloud.Eventbridge
