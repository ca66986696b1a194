import Fakecloud.Aws.EventPattern
import Fakecloud.Lib.StableSort

/-!
# ECR: lifecycle policies

The rules run in the order of their priorities and share the digests that are to be deleted.  What a rule
looks at when the policy is evaluated again is among what it left behind the first time.
-/

namespace Fakecloud.Ecr

open Text StableSort List Aws.EventPattern

structure Image where
  imageDigest : Str
  /-- in nanoseconds -/
  imagePushedAt : ℤ

/-- The images in the order of their digests, and the digest of each tag. -/
structure Repository where
  images : List Image
  imageTags : List (Str × Str)
  keyed : (images.map Image.imageDigest).Nodup

/-! ## The fields of a rule -/

def textOr (sel : Json) (key default : String) : Str := ((sel.field key).bind Json.asStr).getD default

def texts (sel : Json) (key : String) : List Str :=
    (((sel.field key).bind Json.asArray).getD []).filterMap Json.asStr

def intOrZero (v : Json) (key : String) : ℤ :=
  match v.field key with
  | some (.num n) => (parseI64 n).getD 0
  | _ => 0

/-! ## Evaluation -/

def wildcardMatch (pattern text : Str) : Bool :=
  match pattern.splitOn '*' with
  | [] => true
  | [only] => only == text
  | first :: segs => (text.dropPrefix? first).any (wildcardRest segs)

variable (now : ℤ) (repo : Repository) (toDelete : Finset Str) (sel : Json)

def tagsFor (digest : Str) : List Str := (repo.imageTags.filter (·.2 = digest)).map Prod.fst

/-- Some tag matches some text of a list; an empty list does not filter. -/
def tagAmong (tags : List Str) (key : String) (p : Str → Str → Bool) : Bool :=
  (texts sel key).isEmpty || tags.any fun t => (texts sel key).any (p · t)

def selects (img : Image) : Bool :=
  let tags := tagsFor repo img.imageDigest
  let status := textOr sel "tagStatus" "any"
  if status = "tagged" then
    !tags.isEmpty && tagAmong sel tags "tagPrefixList" isPrefixOf &&
      tagAmong sel tags "tagPatternList" wildcardMatch
  else if status = "untagged" then tags.isEmpty
  else true

def candidates : List Image :=
  stableSort (compareOn Image.imagePushedAt)
    ((repo.images.filter (selects repo sel)).filter (·.imageDigest ∉ toDelete))

/-- None where the age or the moment cannot be represented. -/
def threshold : Option ℤ :=
  let seconds := intOrZero sel "countNumber" * if textOr sel "countUnit" "days" = "hours" then 3600 else 86400
  let moment := now - seconds * 10 ^ 9
  if |seconds| ≤ 9223372036854775 ∧ -8334601228800 ≤ moment / 10 ^ 9 ∧ moment / 10 ^ 9 ≤ 8210266876799 then
    some moment
  else none

def ByCount : Prop := textOr sel "countType" "" = "imageCountMoreThan"

instance : Decidable (ByCount sel) := inferInstanceAs (Decidable (_ = _))

/-- What a rule prunes of its candidates, the oldest of which come first. -/
def pruned (images : List Image) : List Image :=
  if ByCount sel then images.take (images.length - (intOrZero sel "countNumber").toNat)
  else if textOr sel "countType" "" = "sinceImagePushed" then
    (threshold now sel).elim [] fun t => images.filter (·.imagePushedAt < t)
  else []

def applyRule : Finset Str :=
  toDelete ∪ ((pruned now sel (candidates repo toDelete sel)).map Image.imageDigest).toFinset

/-- The selections of a policy that parses, the one of lowest priority first. -/
def selections (doc : Option Json) : List Json :=
  let rules := (doc.bind fun doc => (doc.field "rules").bind Json.asArray).getD []
  (stableSort (compareOn (intOrZero · "rulePriority")) rules).map fun rule =>
    (rule.field "selection").getD .null

def evaluateLifecyclePolicy (doc : Option Json) : Finset Str := (selections doc).foldl (applyRule now repo) ∅

/-- What the ticker does with the digests. -/
def Repository.delete : Repository where
  images := repo.images.filter (·.imageDigest ∉ toDelete)
  imageTags := repo.imageTags.filter (·.2 ∉ toDelete)
  keyed := repo.keyed.sublist (filter_sublist.map _)

/-! ## Evaluating again -/

section

variable {now repo sel} {D E : Finset Str} {l l' : List Image} {sels : List Json}

theorem selects_delete {img : Image} (h : img.imageDigest ∉ E) :
    selects (repo.delete E) sel img = selects repo sel img := by
  have ht : tagsFor (repo.delete E) img.imageDigest = tagsFor repo img.imageDigest := by
    unfold tagsFor Repository.delete
    rw [filter_filter]
    congr 1
    refine filter_congr fun e _ => ?_
    by_cases he : e.2 = img.imageDigest <;> simp [he, h]
  simp only [selects, ht]

theorem candidates_delete (sel : Json) : candidates (repo.delete E) ∅ sel = candidates repo E sel := by
  unfold candidates
  congr 1
  change filter _ (filter _ (filter _ repo.images)) = _
  rw [filter_filter, filter_filter, filter_filter]
  refine filter_congr fun img _ => ?_
  by_cases h : img.imageDigest ∈ E
  · simp [h]
  · simp [h, selects_delete h]

/-- With more to delete the candidates are fewer. -/
theorem candidates_perm (sel : Json) (h : D ⊆ E) :
    (candidates repo E sel).Perm ((candidates repo D sel).filter (·.imageDigest ∉ E)) := by
  refine (stableSort_perm _ _).trans (.trans (.of_eq ?_) ((stableSort_perm _ _).filter _).symm)
  rw [filter_filter (l := filter _ _)]
  refine filter_congr fun img _ => ?_
  by_cases hE : img.imageDigest ∈ E
  · simp [hE]
  · simp [hE, mt (@h _) hE]

/-- A rule has nothing to prune among what it left. -/
theorem pruned_eq_nil (h : ∀ img ∈ pruned now sel l, img.imageDigest ∈ E)
    (hp : l'.Perm (l.filter (·.imageDigest ∉ E))) : pruned now sel l' = [] := by
  unfold pruned at h ⊢
  split_ifs at h ⊢
  · have hl : l'.length ≤ (intOrZero sel "countNumber").toNat := by
      rw [hp.length_eq, ← take_append_drop (l.length - (intOrZero sel "countNumber").toNat) l, filter_append,
        filter_eq_nil_iff.mpr (by simpa using h), nil_append]
      refine (length_filter_le _ _).trans ?_
      rw [length_drop]
      omega
    rw [Nat.sub_eq_zero_of_le hl, take_zero]
  · cases ht : threshold now sel with
    | none => rfl
    | some t =>
      refine filter_eq_nil_iff.mpr fun img hi hlt => ?_
      obtain ⟨hi, hE⟩ := mem_filter.mp (hp.mem_iff.mp hi)
      rw [ht] at h
      exact of_decide_eq_true hE (h img (mem_filter.mpr ⟨hi, hlt⟩))
  · rfl

theorem foldl_delete (h : sels.foldl (applyRule now repo) D ⊆ E) :
    sels.foldl (applyRule now (repo.delete E)) ∅ = ∅ := by
  induction sels generalizing D with
  | nil => rfl
  | cons sel sels ih =>
    have hE : applyRule now repo D sel ⊆ E :=
      .trans (foldlRecOn (motive := (applyRule now repo D sel ⊆ ·)) sels _
      (Finset.Subset.refl _) fun _ h _ _ => h.trans Finset.subset_union_left) h
    have hn : pruned now sel (candidates repo E sel) = [] :=
      pruned_eq_nil (fun img hi => hE (Finset.mem_union_right _ (by simpa using ⟨img, hi, rfl⟩)))
        (candidates_perm sel (Finset.subset_union_left.trans hE))
    rw [foldl_cons, applyRule, candidates_delete, hn]
    exact ih h

/-- A count rule cuts its candidates in two. -/
theorem mem_applyRule (now : ℤ) (hs : ByCount sel) (hl : l ++ l' = candidates repo D sel)
    (hn : l.length = (l ++ l').length - (intOrZero sel "countNumber").toNat) :
    (∀ img ∈ l, img.imageDigest ∈ applyRule now repo D sel) ∧ ∀ img ∈ l',
      img.imageDigest ∉ applyRule now repo D sel := by
  have hd : ((l ++ l').map Image.imageDigest).Nodup := by
    rw [hl]
    exact ((stableSort_perm _ _).map _).nodup_iff.mpr
      (repo.keyed.sublist ((filter_sublist.trans filter_sublist).map _))
  have ha : applyRule now repo D sel = D ∪ (l.map Image.imageDigest).toFinset := by
    rw [applyRule, ← hl, pruned, if_pos hs, ← hn, take_left]
  rw [map_append, nodup_append] at hd
  rw [ha]
  refine ⟨fun img hi => by simpa using .inr ⟨img, hi, rfl⟩, fun img hi hE => ?_⟩
  rcases Finset.mem_union.mp hE with hE | hE
  · have hc : img ∈ candidates repo D sel := hl ▸ mem_append_right _ hi
    exact of_decide_eq_true (mem_filter.mp (mem_stableSort.mp hc)).2 hE
  · exact hd.2.2 _ (mem_toFinset.mp hE) _ (mem_map_of_mem hi) rfl

end

/-- **Expiry keeps the newest and is idempotent.** -/
theorem lifecycle_expiry (doc : Option Json) :
    (∀ earlier sel later, selections doc = earlier ++ sel :: later → ByCount sel →
      let before := earlier.foldl (applyRule now repo) ∅
      let expired := applyRule now repo before sel
      let all := candidates repo before sel
      let kept := all.filter (·.imageDigest ∉ expired)
      kept.length = min (intOrZero sel "countNumber").toNat all.length ∧
        ∀ old ∈ all, old.imageDigest ∈ expired → ∀ img ∈ kept, old.imagePushedAt ≤ img.imagePushedAt) ∧
    evaluateLifecyclePolicy now (repo.delete (evaluateLifecyclePolicy now repo doc)) doc = ∅ := by
  refine ⟨fun earlier sel later _ hc => ?_, foldl_delete (Finset.Subset.refl _)⟩
  intro before expired all kept
  set n := all.length - (intOrZero sel "countNumber").toNat
  have hall : all.take n ++ all.drop n = all := take_append_drop n all
  obtain ⟨ho, hk⟩ := mem_applyRule now hc hall (by rw [hall, length_take]; omega)
  have hkept : kept = all.drop n := by
    unfold kept
    conv_lhs => rw [← hall]
    rw [filter_append, filter_eq_nil_iff.mpr (by simpa using ho),
      filter_eq_self.mpr (by simpa using hk), nil_append]
  have hs : all.Pairwise (fun a b => (compareOn Image.imagePushedAt a b).isLE) :=
    (stableSort_before (pairwise_of_forall fun _ _ => trivial)).imp Before.isLE
  rw [← hall, pairwise_append] at hs
  refine ⟨by rw [hkept, length_drop]; omega, fun old h hE img hi => ?_⟩
  rw [← hall] at h
  rcases mem_append.mp h with h | h
  · exact Int.isLE_compare.mp (hs.2.2 old h img (hkept ▸ hi))
  · exact absurd hE (hk old h)

namespace Example

def repository : Repository := ⟨[⟨['a'], 0⟩, ⟨['b'], 1⟩], [], by decide⟩

def keepOne : Json := .obj [("countType", .str "imageCountMoreThan"), ("countNumber", .num ['1'])]

def policy : Json := .obj [("rules", .arr [.obj [("selection", keepOne)]])]

end Example

open Example in
theorem lifecycle_expiry_two : evaluateLifecyclePolicy 0 repository (some policy) = {['a']} ∧
    ((candidates repository ∅ keepOne).filter
      (·.imageDigest ∉ applyRule 0 repository ∅ keepOne)).length = 1 :=
  ⟨by decide +kernel, ((lifecycle_expiry 0 repository (some policy)).1 [] keepOne [] rfl (by decide)).1⟩

end Fakecloud.Ecr
