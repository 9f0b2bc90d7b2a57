import PamoRxpBench.Data.CleanAndFix
import PamoRxpBench.Library.Scopes

/-!
# Cleaning and what matters in a rule

Without negated contents and expressions, a rule should keep its other contents, each with its
modifiers and under its sticky buffer (`Cleaned`). A turn of the loop that removes an option
keeps them exactly when both of its scans are safe (`cleanBody_safe_iff`). What a turn finds of the
options before it can be told from the rule (`left`), as long as the loop backwards passes no
buffer that it should delete (`walkBack_left`). For these rules the loop leaves what it should
exactly when all their removed options are safe (`cleanOptions_cleaned_iff`).
-/

namespace PamoRxpBench
namespace Data

open Scopes

/-! ## What matters in a rule -/

/-- `http.*` or `dns.*`. -/
def hasStickyName (name : Text) : Bool :=
  prefixContentModifierBefore.any fun pfx => pfx.isPrefixOf name

/-- The names of the sticky buffers; `http.*` and `dns.*` are among them. -/
structure StickyBuffers where
  isBuffer : Text → Bool
  of_hasStickyName : ∀ name, hasStickyName name = true → isBuffer name = true
  not_of_mem_contentKw : ∀ name ∈ contentKw, isBuffer name = false

/-- No other buffers than `http.*` and `dns.*`. -/
def StickyBuffers.httpDns : StickyBuffers where
  isBuffer := hasStickyName
  of_hasStickyName := fun _ h => h
  not_of_mem_contentKw := by decide

namespace PlacedOption

/-- A sticky buffer. -/
def isSticky (B : StickyBuffers) (opt : PlacedOption) : Bool := B.isBuffer opt.name

/-- A content that is not negated. -/
def isPositive (opt : PlacedOption) : Bool :=
  opt.name == "content".toList && !List.isPrefixOf ['!'] opt.value

/-- A content modifier. The list has `pcre` too, which is removed. -/
def isModifier (opt : PlacedOption) : Bool :=
  opt.name != "pcre".toList && contentModifiers.contains opt.name

/-- A content or an expression. -/
def inContentKw (opt : PlacedOption) : Bool := contentKw.contains opt.name

/-- `http.*`. -/
def isHttp (opt : PlacedOption) : Bool := "http.".toList.isPrefixOf opt.name

/-- `dns.*`. -/
def isDns (opt : PlacedOption) : Bool := "dns.".toList.isPrefixOf opt.name

/-- The loop forwards passes this option. -/
def isSkipped (opt : PlacedOption) : Bool := !opt.stopsScan

end PlacedOption

open PlacedOption

/-- The options `out` are what should be left of `options`. -/
structure Cleaned (B : StickyBuffers) (options out : List PlacedOption) : Prop where
  removed : ∀ opt ∈ out, opt.isRemoved = false
  /-- The positive contents in their order, each with the modifiers right after it. -/
  followed : followed isPositive isModifier out = followed isPositive isModifier options
  /-- The buffers that the positive contents are under. -/
  governing : governing isPositive (isSticky B) none out =
    governing isPositive (isSticky B) none options

/-! ## The loop backwards -/

/-- The loop backwards over the kept options, of which `r` are those not passed yet, the last
one first. -/
def walkBack : List PlacedOption → Except CleanError (List PlacedOption)
  | [] => .error .indexError
  | [x] => .ok [x]
  | x :: y :: r =>
    if inContentKw x then .ok (x :: y :: r)
    else if isHttp x && isDns y then
      -- both are deleted, and the option before them is passed
      match r with
      | [] => .error .indexError
      | z :: r => (z :: ·) <$> walkBack r
    else if hasStickyName x.name then (y :: ·) <$> walkBack r
    else (x :: ·) <$> walkBack (y :: r)

theorem walkBack_cons_cons (x y : PlacedOption) (r : List PlacedOption) :
    walkBack (x :: y :: r) =
      if inContentKw x then .ok (x :: y :: r)
      else if isHttp x && isDns y then
        match r with
        | [] => .error .indexError
        | z :: r => (z :: ·) <$> walkBack r
      else if hasStickyName x.name then (y :: ·) <$> walkBack r
      else (x :: ·) <$> walkBack (y :: r) := by
  match r with
  | [] => rfl
  | z :: r => rfl

/-- The loop backwards is safe: it deletes no buffer that a positive content is under, and there is
an option to pass after each deletion. `g` says whether the options behind those of `r` reach a
positive content. -/
def backSafe (B : StickyBuffers) : Bool → List PlacedOption → Bool
  | _, [] => false
  | _, [_] => true
  | g, x :: y :: r =>
    if inContentKw x then true
    else if isHttp x && isDns y then
      match r with
      | [] => false
      | z :: r => !g && backSafe B (passes isPositive (isSticky B) false z) r
    else if hasStickyName x.name then
      !g && backSafe B (passes isPositive (isSticky B) false y) r
    else backSafe B (passes isPositive (isSticky B) g x) (y :: r)

theorem backSafe_cons_cons (B : StickyBuffers) (g : Bool) (x y : PlacedOption)
    (r : List PlacedOption) :
    backSafe B g (x :: y :: r) =
      if inContentKw x then true
      else if isHttp x && isDns y then
        match r with
        | [] => false
        | z :: r => !g && backSafe B (passes isPositive (isSticky B) false z) r
      else if hasStickyName x.name then
        !g && backSafe B (passes isPositive (isSticky B) false y) r
      else backSafe B (passes isPositive (isSticky B) g x) (y :: r) := by
  match r with
  | [] => rfl
  | z :: r => rfl

/-! The kept options `r.reverse ++ passed` at the index behind `passed` are those of `r`. -/

theorem optionBack_append (x : PlacedOption) (r passed : List PlacedOption) :
    optionBack ((x :: r).reverse ++ passed) (passed.length + 1) = .ok x := by
  have hlen : ((x :: r).reverse ++ passed).length = r.reverse.length + (passed.length + 1) := by
    simp only [List.length_append, List.length_reverse, List.length_cons]
    omega
  rw [optionBack, hlen, if_pos (Nat.le_add_left _ _), Nat.add_sub_cancel, List.reverse_cons,
    List.append_assoc, List.getElem?_append_right (Nat.le_refl _), Nat.sub_self]
  rfl

theorem optionBack_of_length_lt {newOptions : List PlacedOption} {backIdx : ℕ}
    (h : newOptions.length < backIdx) : optionBack newOptions backIdx = .error .indexError :=
  if_neg (Nat.not_le.mpr h)

/-- Deleting at an index from the end takes an option away only if its name has the prefix. -/
theorem deleteBack_append (x : PlacedOption) (r passed : List PlacedOption) (pfx : Text) :
    deleteBack (passed.length + 1) ((x :: r).reverse ++ passed) pfx =
      .ok ((if pfx.isPrefixOf x.name then r else x :: r).reverse ++ passed) := by
  have hidx : ((x :: r).reverse ++ passed).length - (passed.length + 1) = r.reverse.length := by
    simp only [List.length_append, List.length_reverse, List.length_cons]
    omega
  have herase : ((x :: r).reverse ++ passed).eraseIdx r.reverse.length = r.reverse ++ passed := by
    rw [List.reverse_cons, List.append_assoc, List.eraseIdx_append_of_length_le (Nat.le_refl _),
      Nat.sub_self]
    rfl
  rw [deleteBack, optionBack_append, hidx, herase]
  show Except.ok (if pfx.isPrefixOf x.name = true then _ else _) = _
  split <;> rfl

/-- The two prefixes: a `http.*` is deleted, and a `dns.*` if it is there then. -/
theorem foldlM_deleteBack (x y : PlacedOption) (r passed : List PlacedOption) :
    prefixContentModifierBefore.foldlM (deleteBack (passed.length + 1))
        ((x :: y :: r).reverse ++ passed) =
      .ok ((if isHttp x && isDns y then r else if hasStickyName x.name then y :: r
        else x :: y :: r).reverse ++ passed) := by
  unfold prefixContentModifierBefore
  rw [List.foldlM_cons, deleteBack_append]
  show List.foldlM _ ((if isHttp x then y :: r else x :: y :: r).reverse ++ passed) _ = _
  have hsticky : hasStickyName x.name = (isHttp x || isDns x) := by
    show (isHttp x || (isDns x || false)) = _
    rw [Bool.or_false]
  match hhttp : isHttp x with
  | true =>
    rw [if_pos rfl, List.foldlM_cons, deleteBack_append, hsticky, hhttp, Bool.true_and,
      Bool.true_or, if_pos rfl]
    rfl
  | false =>
    rw [if_neg Bool.false_ne_true, List.foldlM_cons, deleteBack_append, hsticky, hhttp,
      Bool.false_and, Bool.false_or, if_neg Bool.false_ne_true]
    rfl

/-- The loop over negative indices walks back over the kept options. -/
theorem backLoop_append {fuel : ℕ} {r : List PlacedOption} (hfuel : r.length < fuel)
    (passed : List PlacedOption) :
    backLoop fuel (passed.length + 1) (r.reverse ++ passed) =
      (fun w => w.reverse ++ passed) <$> walkBack r := by
  induction fuel generalizing r passed with
  | zero => omega
  | succ fuel ih =>
    -- the option `z` that is there after the deletions is passed
    have hpass : ∀ (z : PlacedOption) (r : List PlacedOption), r.length < fuel →
        backLoop fuel (passed.length + 1 + 1) ((z :: r).reverse ++ passed) =
          (fun w => w.reverse ++ passed) <$> ((z :: ·) <$> walkBack r) := fun z r hlt => by
      rw [List.reverse_cons, List.append_assoc, List.singleton_append]
      refine (ih hlt (z :: passed)).trans ?_
      match walkBack r with
      | .error e => rfl
      | .ok w =>
        show Except.ok _ = Except.ok ((z :: w).reverse ++ passed)
        rw [List.reverse_cons, List.append_assoc, List.singleton_append]
    rw [backLoop]
    match r with
    | [] =>
      rw [List.reverse_nil, List.nil_append, optionBack_of_length_lt (Nat.lt_succ_self _), walkBack]
      rfl
    | [x] =>
      rw [optionBack_append, walkBack]
      show (if _ ∧ _ then _ else _) = _
      rw [if_neg]
      · rfl
      · simp
    | x :: y :: r =>
      simp only [List.length_cons] at hfuel
      rw [optionBack_append, walkBack_cons_cons]
      show (if _ ∧ _ then _ else _) = _
      by_cases hx : inContentKw x = true
      · rw [if_neg fun h => h.1 hx, if_pos hx]
        rfl
      · rw [if_pos ⟨hx, by simp⟩, if_neg hx, foldlM_deleteBack]
        show backLoop fuel (passed.length + 1 + 1) (_ ++ passed) = _
        split
        · match r with
          | [] =>
            -- the next test is beyond the first option
            obtain ⟨fuel, rfl⟩ : ∃ n, fuel = n + 1 := ⟨fuel - 1, by omega⟩
            rw [backLoop, List.reverse_nil, List.nil_append, optionBack_of_length_lt (by omega)]
            rfl
          | z :: r =>
            rw [List.length_cons] at hfuel
            exact hpass z r (by omega)
        · split
          · exact hpass y r (by omega)
          · exact hpass x (y :: r) (by rw [List.length_cons]; omega)

/-! ## What the loop backwards deletes -/

theorem hasStickyName_eq_false :
    ∀ name ∈ contentKw ++ contentModifiers, hasStickyName name = false := by decide

theorem not_mem_of_hasStickyName {name : Text} (h : hasStickyName name = true) :
    name ∉ contentKw ∧ name ∉ contentModifiers := by
  rw [← not_or, ← List.mem_append]
  intro hmem
  rw [hasStickyName_eq_false name hmem] at h
  exact Bool.false_ne_true h

theorem isPositive_of_hasStickyName {opt : PlacedOption} (h : hasStickyName opt.name = true) :
    isPositive opt = false := by
  have hne : opt.name ≠ "content".toList := fun heq =>
    (not_mem_of_hasStickyName h).1 (heq ▸ List.mem_cons_self)
  rw [isPositive, beq_eq_false_iff_ne.mpr hne, Bool.false_and]

/-- Deleted options are no contents, no modifiers, and have none. -/
theorem loosely_hasStickyName :
    Loosely isPositive isModifier inContentKw fun opt => hasStickyName opt.name where
  item _ h := isPositive_of_hasStickyName h
  follower _ h := by simp [isModifier, (not_mem_of_hasStickyName h).2]
  bears _ h := by simp [inContentKw, (not_mem_of_hasStickyName h).1]

theorem hasStickyName_of_isHttp {opt : PlacedOption} (h : isHttp opt = true) :
    hasStickyName opt.name = true := Bool.or_eq_true_iff.mpr (Or.inl h)

theorem hasStickyName_of_isDns {opt : PlacedOption} (h : isDns opt = true) :
    hasStickyName opt.name = true :=
  Bool.or_eq_true_iff.mpr (Or.inr (Bool.or_eq_true_iff.mpr (Or.inl h)))

theorem map_eq_error {ε α β : Type} {f : α → β} {e : Except ε α} {err : ε} :
    f <$> e = .error err ↔ e = .error err := by
  match e with
  | .error e => simp
  | .ok a => simp

theorem map_eq_ok {ε α β : Type} {f : α → β} {e : Except ε α} {b : β} :
    f <$> e = .ok b ↔ ∃ a, e = .ok a ∧ f a = b := by
  match e with
  | .error e => simp
  | .ok a => simp

/-- The loop backwards leaves out `http.*` and `dns.*` only. -/
theorem walkBack_thinned {r w : List PlacedOption} (h : walkBack r = .ok w) :
    Thinned (fun opt => hasStickyName opt.name) r w := by
  fun_induction walkBack r generalizing w with
  | case1 => nomatch h
  | case2 x => exact Except.ok.inj h ▸ Thinned.refl _
  | case3 x y r hx => exact Except.ok.inj h ▸ Thinned.refl _
  | case4 x y hx hpair => nomatch h
  | case5 x y hx hpair z r ih =>
    obtain ⟨v, hv, rfl⟩ := map_eq_ok.mp h
    obtain ⟨hhttp, hdns⟩ := Bool.and_eq_true_iff.mp hpair
    exact Thinned.drop (hasStickyName_of_isHttp hhttp)
      (Thinned.drop (hasStickyName_of_isDns hdns) ((ih hv).cons z))
  | case6 x y r hx hpair hsticky ih =>
    obtain ⟨v, hv, rfl⟩ := map_eq_ok.mp h
    exact Thinned.drop hsticky ((ih hv).cons y)
  | case7 x y r hx hpair hsticky ih =>
    obtain ⟨v, hv, rfl⟩ := map_eq_ok.mp h
    exact (ih hv).cons x

/-- It can fail at the index only. -/
theorem walkBack_error {r : List PlacedOption} {e : CleanError} (h : walkBack r = .error e) :
    e = .indexError := by
  fun_induction walkBack r with
  | case1 => exact (Except.error.inj h).symm
  | case2 x => nomatch h
  | case3 x y r hx => nomatch h
  | case4 x y hx hpair => exact (Except.error.inj h).symm
  | case5 x y hx hpair z r ih => exact ih (map_eq_error.mp h)
  | case6 x y r hx hpair hsticky ih => exact ih (map_eq_error.mp h)
  | case7 x y r hx hpair hsticky ih => exact ih (map_eq_error.mp h)

section
variable (B : StickyBuffers) {g : Bool} {x z : PlacedOption} {r : List PlacedOption}

/-- The loop goes on behind the option `z` that it passes. -/
theorem walkBack_pass_iff {u v : List PlacedOption} {p : Prop}
    (h : ∀ w, w ⊆ r → (u ⊆ z :: w ↔ p ∧ v ⊆ w)) :
    (∃ w, (z :: ·) <$> walkBack r = .ok w ∧ u ⊆ w) ↔ p ∧ ∃ w, walkBack r = .ok w ∧ v ⊆ w := by
  simp only [map_eq_ok]
  constructor
  · rintro ⟨_, ⟨w, hw, rfl⟩, hsub⟩
    rw [h w (walkBack_thinned hw).sublist.subset] at hsub
    exact ⟨hsub.1, w, hw, hsub.2⟩
  · rintro ⟨hp, w, hw, hsub⟩
    exact ⟨z :: w, ⟨w, hw, rfl⟩, (h w (walkBack_thinned hw).sublist.subset).mpr ⟨hp, hsub⟩⟩

/-- A deleted option must not be used. -/
theorem usedBack_deleted_iff {t w : List PlacedOption} (hsticky : hasStickyName x.name = true)
    (hx : x ∉ z :: r) (hw : w ⊆ r) :
    usedBack isPositive (isSticky B) g (x :: t) ⊆ z :: w ↔
      g = false ∧ usedBack isPositive (isSticky B) false t ⊆ z :: w :=
  usedBack_cons_subset_iff (isPositive_of_hasStickyName hsticky) (B.of_hasStickyName _ hsticky)
    fun hmem => hx (List.cons_subset_cons z hw hmem)

/-- The loop backwards is safe when it ends and every buffer that is used is still there. -/
theorem backSafe_iff (hnodup : r.Nodup) :
    backSafe B g r = true ↔
      ∃ w, walkBack r = .ok w ∧ usedBack isPositive (isSticky B) g r ⊆ w := by
  fun_induction walkBack r generalizing g with
  | case1 => simp [backSafe]
  | case2 x => simp [backSafe, usedBack_subset]
  | case3 x y r hx => simp [backSafe_cons_cons, hx, usedBack_subset]
  | case4 x y hx hpair => simp [backSafe_cons_cons, hx, hpair]
  | case5 x y hx hpair z r ih =>
    -- both buffers are deleted, so nothing may be under them
    obtain ⟨hhttp, hdns⟩ := Bool.and_eq_true_iff.mp hpair
    obtain ⟨hx', hnodup⟩ := List.nodup_cons.mp hnodup
    obtain ⟨hy, hnodup⟩ := List.nodup_cons.mp hnodup
    obtain ⟨hz, hnodup⟩ := List.nodup_cons.mp hnodup
    rw [backSafe_cons_cons, if_neg hx, if_pos hpair, Bool.and_eq_true_iff, ih hnodup,
      Bool.not_eq_true']
    refine (walkBack_pass_iff fun w hw => ?_).symm
    rw [usedBack_deleted_iff B (hasStickyName_of_isHttp hhttp)
        (fun h => hx' (List.mem_cons_of_mem y h)) hw,
      usedBack_deleted_iff B (hasStickyName_of_isDns hdns) hy hw,
      usedBack_cons_subset_cons_iff hz]
    exact and_congr_right fun _ => and_iff_right rfl
  | case6 x y r hx hpair hsticky ih =>
    obtain ⟨hx', hnodup⟩ := List.nodup_cons.mp hnodup
    obtain ⟨hy, hnodup⟩ := List.nodup_cons.mp hnodup
    rw [backSafe_cons_cons, if_neg hx, if_neg hpair, if_pos hsticky, Bool.and_eq_true_iff,
      ih hnodup, Bool.not_eq_true']
    refine (walkBack_pass_iff fun w hw => ?_).symm
    rw [usedBack_deleted_iff B hsticky hx' hw, usedBack_cons_subset_cons_iff hy]
  | case7 x y r hx hpair hsticky ih =>
    obtain ⟨hx', hnodup⟩ := List.nodup_cons.mp hnodup
    rw [backSafe_cons_cons, if_neg hx, if_neg hpair, if_neg hsticky, ih hnodup]
    refine ((walkBack_pass_iff fun w _ => ?_).trans (and_iff_right trivial)).symm
    rw [usedBack_cons_subset_cons_iff hx', true_and]

end

/-! ## The options that go -/

theorem mem_contentKw_of_isRemoved {opt : PlacedOption} (h : opt.isRemoved = true) :
    opt.name ∈ contentKw := by
  rw [RuleOption.isRemoved, Bool.or_eq_true, Bool.and_eq_true, beq_iff_eq, beq_iff_eq] at h
  obtain ⟨h, -⟩ | h := h
  · rw [h]
    exact List.mem_cons_self
  · rw [h]
    exact List.mem_cons_of_mem _ List.mem_cons_self

theorem isPositive_of_isRemoved {opt : PlacedOption} (h : opt.isRemoved = true) :
    isPositive opt = false := by
  unfold RuleOption.isRemoved at h
  unfold isPositive
  match hname : opt.name == "content".toList, hneg : ['!'].isPrefixOf opt.value with
  | false, _ => rfl
  | true, true => rfl
  | true, false =>
    rw [hname, hneg] at h
    rw [eq_of_beq hname] at h
    exact absurd h (by decide)

theorem isSticky_of_isRemoved (B : StickyBuffers) {opt : PlacedOption}
    (h : opt.isRemoved = true) : isSticky B opt = false :=
  B.not_of_mem_contentKw _ (mem_contentKw_of_isRemoved h)

/-- The loop forwards stops at no modifier, and the contents and expressions are none. -/
theorem isModifier_of_stopsScan {opt : PlacedOption} (h : opt.stopsScan = true) :
    isModifier opt = false := by
  have hall : ∀ name ∈ contentModifiers, name ≠ "pcre".toList →
      (RuleOption.mk name []).stopsScan = false := by decide
  rw [isModifier, Bool.and_eq_false_iff, or_iff_not_imp_right, Bool.not_eq_false,
    bne_eq_false_iff_eq, List.contains_iff_mem]
  intro hmem
  by_contra hne
  exact Bool.false_ne_true ((hall _ hmem hne).symm.trans h)

theorem stopsScan_of_mem_contentKw {opt : PlacedOption} (h : opt.name ∈ contentKw) :
    opt.stopsScan = true := by
  have hall : ∀ name ∈ contentKw, (RuleOption.mk name []).stopsScan = true := by decide
  exact hall _ h

theorem isPositive_of_isSkipped {opt : PlacedOption} (h : isSkipped opt = true) :
    isPositive opt = false := by
  have hne : opt.name ≠ "content".toList := fun heq => by
    have hstop : opt.stopsScan = true := stopsScan_of_mem_contentKw (heq ▸ List.mem_cons_self)
    rw [isSkipped, hstop] at h
    exact Bool.false_ne_true h
  rw [isPositive, beq_eq_false_iff_ne.mpr hne, Bool.false_and]

/-! ## One turn -/

/-- The loop forwards ends at the first option where it stops, if there is one. -/
theorem forwardLoop_eq_ok {rest r : List PlacedOption} :
    forwardLoop rest = .ok r ↔ rest.dropWhile isSkipped = r ∧ r ≠ [] := by
  induction rest with
  | nil => exact ⟨fun h => (nomatch h), fun h => absurd h.1.symm h.2⟩
  | cons opt rest ih =>
    rw [forwardLoop, List.dropWhile_cons, isSkipped]
    by_cases hstop : opt.stopsScan = true
    · rw [if_pos hstop, hstop]
      exact ⟨fun h => ⟨Except.ok.inj h, Except.ok.inj h ▸ List.cons_ne_nil _ _⟩,
        fun h => congrArg _ h.1⟩
    · rw [if_neg hstop, Bool.eq_false_iff.mpr hstop]
      exact ih

theorem forwardLoop_error {rest : List PlacedOption} {e : CleanError}
    (h : forwardLoop rest = .error e) : e = .indexError := by
  induction rest with
  | nil => exact (Except.error.inj h).symm
  | cons opt rest ih =>
    rw [forwardLoop] at h
    split at h
    · nomatch h
    · exact ih h

/-- A turn that removes an option. -/
theorem cleanBody_of_isRemoved {newOptions rest : List PlacedOption} {currOpt : PlacedOption}
    (h : currOpt.isRemoved = true) :
    cleanBody newOptions currOpt rest = walkBack newOptions.reverse >>= fun w =>
      CleanState.mk w.reverse <$> forwardLoop rest := by
  have hback := @backLoop_append (newOptions.length + 1) newOptions.reverse (by simp) []
  simp only [List.reverse_reverse, List.append_nil, List.length_nil, Nat.zero_add] at hback
  rw [cleanBody, if_pos h, hback]
  match walkBack newOptions.reverse with
  | .error e => rfl
  | .ok w => rfl

/-- A turn that removes an option is the loop backwards and the loop forwards. -/
theorem cleanBody_eq_ok {newOptions rest : List PlacedOption} {currOpt : PlacedOption}
    (h : currOpt.isRemoved = true) {t : CleanState} :
    cleanBody newOptions currOpt rest = .ok t ↔
      ∃ w, walkBack newOptions.reverse = .ok w ∧ rest.dropWhile isSkipped ≠ [] ∧
        t = ⟨w.reverse, rest.dropWhile isSkipped⟩ := by
  rw [cleanBody_of_isRemoved h]
  match walkBack newOptions.reverse with
  | .error e => exact ⟨fun h => (nomatch h), fun ⟨w, hw, _⟩ => (nomatch hw)⟩
  | .ok w =>
    show (CleanState.mk w.reverse <$> forwardLoop rest) = .ok t ↔ _
    simp only [map_eq_ok, forwardLoop_eq_ok]
    constructor
    · rintro ⟨r, ⟨rfl, hne⟩, rfl⟩
      exact ⟨w, rfl, hne, rfl⟩
    · rintro ⟨w', hw, hne, rfl⟩
      exact ⟨_, ⟨rfl, hne⟩, Except.ok.inj hw ▸ rfl⟩

theorem cleanBody_of_not_isRemoved {newOptions rest : List PlacedOption} {currOpt : PlacedOption}
    (h : currOpt.isRemoved = false) :
    cleanBody newOptions currOpt rest = .ok ⟨newOptions ++ [currOpt], rest⟩ :=
  if_neg (by simp [h])

/-- A turn fails with an index error only. -/
theorem cleanBody_error {newOptions rest : List PlacedOption} {currOpt : PlacedOption}
    {e : CleanError} (h : cleanBody newOptions currOpt rest = .error e) : e = .indexError := by
  match hremoved : currOpt.isRemoved with
  | false =>
    rw [cleanBody_of_not_isRemoved hremoved] at h
    nomatch h
  | true =>
    rw [cleanBody_of_isRemoved hremoved] at h
    match hback : walkBack newOptions.reverse, hforward : forwardLoop rest with
    | .error e', _ =>
      rw [hback] at h
      exact Except.error.inj h ▸ walkBack_error hback
    | .ok w, .error e' =>
      rw [hback, hforward] at h
      exact Except.error.inj h ▸ forwardLoop_error hforward
    | .ok w, .ok r =>
      rw [hback, hforward] at h
      nomatch h

/-- A turn goes on behind its option. -/
theorem length_rest_le {newOptions rest : List PlacedOption} {currOpt : PlacedOption}
    {t : CleanState} (h : cleanBody newOptions currOpt rest = .ok t) :
    t.rest.length ≤ rest.length := by
  match hremoved : currOpt.isRemoved with
  | false => rw [← Except.ok.inj ((cleanBody_of_not_isRemoved hremoved).symm.trans h)]
  | true =>
    obtain ⟨w, -, -, rfl⟩ := (cleanBody_eq_ok hremoved).mp h
    exact (List.dropWhile_suffix _).length_le

/-- The removal of an option is safe, of which `before` are left before it and `rest` are behind it:
the loop forwards stops, it skips no buffer that a positive content behind it is under, and the
loop backwards is safe. -/
structure SafeTurn (B : StickyBuffers) (before rest : List PlacedOption) : Prop where
  stops : ∃ opt ∈ rest, opt.stopsScan = true
  skipped : (rest.takeWhile isSkipped).any (isSticky B) = true →
    reaches isPositive (isSticky B) (rest.dropWhile isSkipped) = false
  back : backSafe B (reaches isPositive (isSticky B) (rest.dropWhile isSkipped))
    before.reverse = true

/-- The options up to the one where the loop forwards stops, from a removed one on. -/
theorem isPositive_of_mem_removed {currOpt : PlacedOption} (h : currOpt.isRemoved = true)
    {rest : List PlacedOption} :
    ∀ opt ∈ currOpt :: rest.takeWhile isSkipped, isPositive opt = false := by
  intro opt hopt
  obtain rfl | hopt := List.mem_cons.mp hopt
  · exact isPositive_of_isRemoved h
  · exact isPositive_of_isSkipped (List.mem_takeWhile_imp hopt)

/-- A turn keeps every positive content with its modifiers. -/
theorem cleanBody_preserved {newOptions rest : List PlacedOption} {currOpt : PlacedOption}
    {t : CleanState} (hremoved : currOpt.isRemoved = true)
    (hattached : Attached isModifier inContentKw (newOptions ++ currOpt :: rest))
    (h : cleanBody newOptions currOpt rest = .ok t) :
    (t.newOptions ++ t.rest).Sublist (newOptions ++ currOpt :: rest) ∧
      Preserved isPositive isModifier inContentKw (newOptions ++ currOpt :: rest)
        (t.newOptions ++ t.rest) := by
  obtain ⟨w, hw, hne, rfl⟩ := (cleanBody_eq_ok hremoved).mp h
  obtain ⟨stop, r, hstop⟩ := List.exists_cons_of_ne_nil hne
  have hrest : rest = rest.takeWhile isSkipped ++ stop :: r := by
    rw [← hstop, List.takeWhile_append_dropWhile]
  have hstops : stop.stopsScan = true := by
    have := List.head_dropWhile_not isSkipped hne
    simpa [hstop, isSkipped] using this
  have hthin := (walkBack_thinned hw).reverse.append_right (stop :: r)
  rw [List.reverse_reverse] at hthin
  have hcurr : isModifier currOpt = false :=
    isModifier_of_stopsScan (stopsScan_of_mem_contentKw (mem_contentKw_of_isRemoved hremoved))
  have hwhole : newOptions ++ currOpt :: rest =
      newOptions ++ currOpt :: rest.takeWhile isSkipped ++ stop :: r := by
    rw [List.append_assoc, List.cons_append, ← hrest]
  rw [hwhole] at hattached ⊢
  have hskip := preserved_skip (isPositive_of_mem_removed hremoved) hcurr
    (isModifier_of_stopsScan hstops) hattached
  rw [hstop]
  have hkept := (hthin.preserved loosely_hasStickyName hskip.attached).2
  refine ⟨hthin.sublist.trans ?_, hskip.trans hkept⟩
  exact (List.sublist_append_left newOptions _).append_right _

/-- A turn that removes an option is safe when it ends and every buffer that is used is still
there. -/
theorem cleanBody_safe_iff (B : StickyBuffers) {newOptions rest : List PlacedOption}
    {currOpt : PlacedOption} (hremoved : currOpt.isRemoved = true)
    (hnodup : (newOptions ++ currOpt :: rest).Nodup) :
    (∃ t, cleanBody newOptions currOpt rest = .ok t ∧
      used isPositive (isSticky B) (newOptions ++ currOpt :: rest) ⊆ t.newOptions ++ t.rest) ↔
        SafeTurn B newOptions rest := by
  simp only [cleanBody_eq_ok hremoved]
  have hwhole : newOptions ++ currOpt :: rest = newOptions.reverse.reverse ++
      (currOpt :: rest.takeWhile isSkipped ++ rest.dropWhile isSkipped) := by
    rw [List.reverse_reverse, List.cons_append, List.takeWhile_append_dropWhile]
  -- the loop forwards finds an end if there is an option where it stops
  have hstops : rest.dropWhile isSkipped ≠ [] ↔ ∃ opt ∈ rest, opt.stopsScan = true := by
    rw [Ne, List.dropWhile_eq_nil_iff]
    simp [isSkipped]
  have hany : (currOpt :: rest.takeWhile isSkipped).any (isSticky B) =
      (rest.takeWhile isSkipped).any (isSticky B) := by
    rw [List.any_cons, isSticky_of_isRemoved B hremoved, Bool.false_or]
  have hback := @backSafe_iff B (reaches isPositive (isSticky B) (rest.dropWhile isSkipped))
    newOptions.reverse (List.nodup_reverse.mpr (List.nodup_append.mp hnodup).1)
  have hused : ∀ w, walkBack newOptions.reverse = .ok w → _ := fun w hw =>
    @used_reverse_append_subset_iff _ _ (isSticky B) _ _ _ w (isPositive_of_mem_removed hremoved)
      (hwhole ▸ hnodup) (walkBack_thinned hw).sublist.subset
  constructor
  · rintro ⟨t, ⟨w, hw, hne, rfl⟩, hsub⟩
    rw [hwhole, hused w hw, hany] at hsub
    exact ⟨hstops.mp hne, hsub.1, hback.mpr ⟨w, hw, hsub.2⟩⟩
  · intro hsafe
    obtain ⟨w, hw, hsub⟩ := hback.mp hsafe.back
    refine ⟨_, ⟨w, hw, hstops.mpr hsafe.stops, rfl⟩, ?_⟩
    rw [hwhole, hused w hw, hany]
    exact ⟨hsafe.skipped, hsub⟩

/-! ## What is left of a rule -/

/-- Of options the last one first: the nearest one that the loop forwards does not pass is removed,
so an option behind them is skipped if it can be. -/
def afterRemoved (before : List PlacedOption) : Bool :=
  (before.find? fun opt => !isSkipped opt).any fun opt => opt.isRemoved

/-- What is left of options, the last one first. Removed ones go, the options behind them up to the
next stop, and each `http.*` or `dns.*` but the first option of the rule if one that is removed
comes behind it ahead of the next positive content; `removing` says whether one comes behind. -/
def leftBack : Bool → List PlacedOption → List PlacedOption
  | _, [] => []
  | removing, opt :: before =>
    if opt.isRemoved then leftBack true before
    else if isSkipped opt && afterRemoved before then leftBack removing before
    else if removing && hasStickyName opt.name && !before.isEmpty then leftBack removing before
    else opt :: leftBack (removing && !isPositive opt) before

/-- What is left of the options before a removed one. -/
def left (before : List PlacedOption) : List PlacedOption :=
  (leftBack false before.reverse).reverse

/-- Going back to the next positive content, no `http.*` or `dns.*` is met but the first option. -/
def quietBack : List PlacedOption → Bool
  | [] => true
  | [_] => true
  | x :: y :: r => isPositive x || (!hasStickyName x.name && quietBack (y :: r))

/-- Going back to the next positive content, the option before a `http.*` or `dns.*` is none itself,
and if it is that content then there is none ahead of the content before. -/
def separatedBack : List PlacedOption → Bool
  | [] => true
  | [_] => true
  | x :: y :: r =>
    isPositive x ||
      if hasStickyName x.name then
        !hasStickyName y.name && if isPositive y then quietBack r else separatedBack r
      else separatedBack (y :: r)

/-- The option that is passed untested before a deleted one is no buffer, and no content that the
loop backwards should have stopped at. -/
def Separated (before : List PlacedOption) : Prop := separatedBack (left before).reverse = true

instance (before : List PlacedOption) : Decidable (Separated before) :=
  inferInstanceAs (Decidable (_ = true))

/-- Options without the buffers up to the next positive content. -/
def clearBack : List PlacedOption → List PlacedOption
  | [] => []
  | [x] => [x]
  | x :: y :: r =>
    if isPositive x then x :: y :: r
    else if hasStickyName x.name then clearBack (y :: r)
    else x :: clearBack (y :: r)

theorem clearBack_of_isPositive {x : PlacedOption} (h : isPositive x = true)
    (k : List PlacedOption) : clearBack (x :: k) = x :: k := by
  match k with
  | [] => rfl
  | y :: r => rw [clearBack, if_pos h]

theorem clearBack_of_hasStickyName {x : PlacedOption} (h : hasStickyName x.name = true)
    {k : List PlacedOption} (hk : k ≠ []) : clearBack (x :: k) = clearBack k := by
  match k with
  | [] => exact absurd rfl hk
  | y :: r =>
    rw [clearBack, if_neg (by simp [isPositive_of_hasStickyName h]), if_pos h]

theorem clearBack_of_not {x : PlacedOption} (hpositive : isPositive x = false)
    (hsticky : hasStickyName x.name = false) (k : List PlacedOption) :
    clearBack (x :: k) = x :: clearBack k := by
  match k with
  | [] => rfl
  | y :: r => rw [clearBack, if_neg (by simp [hpositive]), if_neg (by simp [hsticky])]

/-- No removed option is left. -/
theorem isRemoved_of_mem_leftBack {removing : Bool} {before : List PlacedOption}
    {opt : PlacedOption} (h : opt ∈ leftBack removing before) : opt.isRemoved = false := by
  fun_induction leftBack removing before with
  | case1 => exact absurd h List.not_mem_nil
  | case2 removing x before hremoved ih => exact ih h
  | case3 removing x before hremoved hskipped ih => exact ih h
  | case4 removing x before hremoved hskipped hdeleted ih => exact ih h
  | case5 removing x before hremoved hskipped hdeleted ih =>
    rcases List.mem_cons.mp h with rfl | h
    · exact Bool.eq_false_iff.mpr hremoved
    · exact ih h

theorem leftBack_of_isRemoved {x : PlacedOption} (h : x.isRemoved = true) (removing : Bool)
    (before : List PlacedOption) : leftBack removing (x :: before) = leftBack true before := by
  rw [leftBack, if_pos h]

theorem leftBack_of_skipped {x : PlacedOption} {before : List PlacedOption}
    (hremoved : x.isRemoved = false) (hskipped : (isSkipped x && afterRemoved before) = true)
    (removing : Bool) : leftBack removing (x :: before) = leftBack removing before := by
  rw [leftBack, if_neg (by simp [hremoved]), if_pos hskipped]

theorem leftBack_of_not_skipped {x : PlacedOption} {before : List PlacedOption}
    (hremoved : x.isRemoved = false) (hskipped : (isSkipped x && afterRemoved before) = false)
    (removing : Bool) :
    leftBack removing (x :: before) =
      if removing && hasStickyName x.name && !before.isEmpty then leftBack removing before
      else x :: leftBack (removing && !isPositive x) before := by
  rw [leftBack, if_neg (by simp [hremoved]), if_neg (by simp [hskipped])]

/-- The first option of a rule is left, unless it is removed. -/
theorem leftBack_singleton {x : PlacedOption} (h : x.isRemoved = false) (removing : Bool) :
    leftBack removing [x] = [x] := by
  rw [leftBack_of_not_skipped h (Bool.and_false _), if_neg (by simp)]
  rfl

/-- The first option is always left, if it is not removed. -/
theorem leftBack_ne_nil {before : List PlacedOption} (hne : before ≠ [])
    (hfirst : ∀ first, before.getLast? = some first → first.isRemoved = false) (removing : Bool) :
    leftBack removing before ≠ [] := by
  induction before generalizing removing with
  | nil => exact absurd rfl hne
  | cons x before ih =>
    match before with
    | [] =>
      rw [leftBack_singleton (hfirst x rfl)]
      exact List.cons_ne_nil _ _
    | y :: r =>
      have hrest := ih (List.cons_ne_nil y r) fun first h =>
        hfirst first (by rwa [List.getLast?_cons_cons])
      unfold leftBack
      split
      · exact hrest true
      · split
        · exact hrest removing
        · split
          · exact hrest removing
          · exact List.cons_ne_nil _ _

/-- A further removed option takes the buffers up to the next positive content that are left. -/
theorem clearBack_leftBack {before : List PlacedOption}
    (hfirst : ∀ first, before.getLast? = some first → first.isRemoved = false) (removing : Bool) :
    clearBack (leftBack removing before) = leftBack true before := by
  induction before generalizing removing with
  | nil => rfl
  | cons x before ih =>
    match before with
    | [] =>
      rw [leftBack_singleton (hfirst x rfl), leftBack_singleton (hfirst x rfl)]
      rfl
    | y :: r =>
      have hfirst' : ∀ first, (y :: r).getLast? = some first → first.isRemoved = false :=
        fun first h => hfirst first (by rwa [List.getLast?_cons_cons])
      have hrest := ih hfirst'
      by_cases hremoved : x.isRemoved = true
      · rw [leftBack_of_isRemoved hremoved, leftBack_of_isRemoved hremoved]
        exact hrest true
      have hremoved' := Bool.eq_false_iff.mpr hremoved
      by_cases hskipped : (isSkipped x && afterRemoved (y :: r)) = true
      · rw [leftBack_of_skipped hremoved' hskipped, leftBack_of_skipped hremoved' hskipped]
        exact hrest removing
      have hskipped' := Bool.eq_false_iff.mpr hskipped
      rw [leftBack_of_not_skipped hremoved' hskipped', leftBack_of_not_skipped hremoved' hskipped']
      by_cases hsticky : hasStickyName x.name = true
      · have hkept : (true && hasStickyName x.name && !(y :: r).isEmpty) = true := by
          simp [hsticky]
        rw [if_pos hkept]
        cases removing with
        | true =>
          rw [if_pos (by simp [hsticky])]
          exact hrest true
        | false =>
          -- it is still there, and is taken now
          rw [if_neg (by simp), Bool.false_and, clearBack_of_hasStickyName hsticky
            (leftBack_ne_nil (List.cons_ne_nil y r) hfirst' false)]
          exact hrest false
      have hsticky' := Bool.eq_false_iff.mpr hsticky
      rw [if_neg (by simp [hsticky']), if_neg (by simp [hsticky'])]
      by_cases hpositive : isPositive x = true
      · rw [hpositive, Bool.not_true, Bool.and_false, Bool.and_false,
          clearBack_of_isPositive hpositive]
      · have hpositive' := Bool.eq_false_iff.mpr hpositive
        rw [hpositive', Bool.not_false, Bool.and_true, Bool.and_true,
          clearBack_of_not hpositive' hsticky', hrest]

/-- A content that is left is positive. -/
theorem isPositive_of_inContentKw {opt : PlacedOption} (h : inContentKw opt = true)
    (hremoved : opt.isRemoved = false) : isPositive opt = true := by
  have hmem : opt.name ∈ contentKw := List.contains_iff_mem.mp h
  rw [RuleOption.isRemoved, Bool.or_eq_false_iff] at hremoved
  have hname : opt.name = "content".toList := by
    rcases List.mem_pair.mp hmem with hname | hname
    · exact hname
    · exact absurd hremoved.2 (by simp [hname])
  have hnegated := hremoved.1
  rw [beq_iff_eq.mpr hname, Bool.true_and] at hnegated
  rw [isPositive, beq_iff_eq.mpr hname, hnegated]
  rfl

theorem inContentKw_of_isPositive {opt : PlacedOption} (h : isPositive opt = true) :
    inContentKw opt = true := by
  have hname := eq_of_beq (Bool.and_eq_true_iff.mp h).1
  rw [inContentKw, hname]
  decide

/-- Behind a content the loop backwards deletes nothing. -/
theorem walkBack_quiet {k w : List PlacedOption} (hquiet : quietBack k = true)
    (h : walkBack k = .ok w) : w = k := by
  induction k generalizing w with
  | nil => exact nomatch h
  | cons x k ih =>
    match k with
    | [] => exact (Except.ok.inj h).symm
    | y :: r =>
      rw [walkBack_cons_cons] at h
      by_cases hx : inContentKw x = true
      · rw [if_pos hx] at h
        exact (Except.ok.inj h).symm
      · have hpositive : isPositive x ≠ true := fun hp => hx (inContentKw_of_isPositive hp)
        rw [quietBack, Bool.or_eq_true, or_iff_right hpositive, Bool.and_eq_true,
          Bool.not_eq_true'] at hquiet
        have hhttp : isHttp x = false := Bool.eq_false_iff.mpr fun hhttp =>
          absurd (hasStickyName_of_isHttp hhttp) (by simp [hquiet.1])
        rw [if_neg hx, if_neg (by simp [hhttp]), if_neg (by simp [hquiet.1])] at h
        obtain ⟨v, hv, rfl⟩ := map_eq_ok.mp h
        rw [ih hquiet.2 hv]

/-- The loop backwards deletes all buffers up to the next positive content. -/
theorem walkBack_separated {k w : List PlacedOption}
    (hkept : ∀ opt ∈ k, opt.isRemoved = false) (hseparated : separatedBack k = true)
    (h : walkBack k = .ok w) : w = clearBack k := by
  fun_induction walkBack k generalizing w with
  | case1 => exact nomatch h
  | case2 x => exact (Except.ok.inj h).symm
  | case3 x y r hx =>
    rw [clearBack_of_isPositive (isPositive_of_inContentKw hx (hkept x List.mem_cons_self))]
    exact (Except.ok.inj h).symm
  | case4 x y hx hpair => exact nomatch h
  | case5 x y hx hpair z r ih =>
    obtain ⟨hhttp, hdns⟩ := Bool.and_eq_true_iff.mp hpair
    -- two buffers next to each other are not separated
    have hpositive := isPositive_of_hasStickyName (hasStickyName_of_isHttp hhttp)
    rw [separatedBack, hpositive, Bool.false_or, if_pos (hasStickyName_of_isHttp hhttp),
      hasStickyName_of_isDns hdns] at hseparated
    exact absurd hseparated (by simp)
  | case6 x y r hx hpair hsticky ih =>
    have hpositive := isPositive_of_hasStickyName hsticky
    rw [separatedBack, hpositive, Bool.false_or, if_pos hsticky, Bool.and_eq_true,
      Bool.not_eq_true'] at hseparated
    obtain ⟨hy, hseparated⟩ := hseparated
    obtain ⟨v, hv, rfl⟩ := map_eq_ok.mp h
    rw [clearBack_of_hasStickyName hsticky (List.cons_ne_nil y r)]
    -- the loop goes on behind a positive content, but there is nothing to delete
    by_cases hpositive' : isPositive y = true
    · rw [if_pos hpositive'] at hseparated
      rw [clearBack_of_isPositive hpositive', walkBack_quiet hseparated hv]
    · rw [if_neg hpositive'] at hseparated
      rw [clearBack_of_not (Bool.eq_false_iff.mpr hpositive') hy, ih (fun opt hopt =>
        hkept opt (List.mem_cons_of_mem x (List.mem_cons_of_mem y hopt))) hseparated hv]
  | case7 x y r hx hpair hsticky ih =>
    have hpositive : isPositive x = false := Bool.eq_false_iff.mpr fun hp =>
      hx (inContentKw_of_isPositive hp)
    rw [separatedBack, hpositive, Bool.false_or, if_neg hsticky] at hseparated
    obtain ⟨v, hv, rfl⟩ := map_eq_ok.mp h
    rw [clearBack_of_not hpositive (Bool.eq_false_iff.mpr hsticky), ih (fun opt hopt =>
      hkept opt (List.mem_cons_of_mem x hopt)) hseparated hv]

/-- Options that the loop forwards skips behind a removed one. -/
theorem leftBack_append_skipped {skipped : List PlacedOption}
    (hskipped : ∀ opt ∈ skipped, isSkipped opt = true) {currOpt : PlacedOption}
    (hremoved : currOpt.isRemoved = true) (before : List PlacedOption) :
    leftBack false (skipped ++ currOpt :: before) = leftBack true before := by
  have hcurr : isSkipped currOpt = false := by
    rw [isSkipped, stopsScan_of_mem_contentKw (mem_contentKw_of_isRemoved hremoved)]
    rfl
  induction skipped with
  | nil => exact leftBack_of_isRemoved hremoved false before
  | cons x skipped ih =>
    have hrest := fun opt hopt => hskipped opt (List.mem_cons_of_mem x hopt)
    have hx : isSkipped x = true := hskipped x List.mem_cons_self
    have hkept : x.isRemoved = false := by
      by_contra hne
      rw [isSkipped, stopsScan_of_mem_contentKw (mem_contentKw_of_isRemoved
        (Bool.not_eq_false _ ▸ hne))] at hx
      cases hx
    have hafter : afterRemoved (skipped ++ currOpt :: before) = true := by
      have hfind : (skipped.find? fun opt => !isSkipped opt) = none := by
        rw [List.find?_eq_none]
        exact fun opt hopt => by simp [hrest opt hopt]
      rw [afterRemoved, List.find?_append, hfind, Option.none_or,
        List.find?_cons_of_pos (by simp [hcurr])]
      exact hremoved
    rw [List.cons_append, leftBack_of_skipped hkept (by rw [hx, hafter]; rfl), ih hrest]

theorem left_concat {before : List PlacedOption} {opt : PlacedOption}
    (hremoved : opt.isRemoved = false)
    (hskipped : isSkipped opt = true → afterRemoved before.reverse = false) :
    left (before ++ [opt]) = left before ++ [opt] := by
  have hkept : (isSkipped opt && afterRemoved before.reverse) = false := by
    rw [Bool.and_eq_false_imp]
    exact hskipped
  rw [left, List.reverse_append, List.reverse_singleton, List.singleton_append,
    leftBack_of_not_skipped hremoved hkept, if_neg (by simp), Bool.false_and, List.reverse_cons]
  rfl

/-- After the turn that removes an option, what is left can be told from the rule. -/
theorem walkBack_left {before skipped w : List PlacedOption} {currOpt : PlacedOption}
    (hremoved : currOpt.isRemoved = true) (hskipped : ∀ opt ∈ skipped, isSkipped opt = true)
    (hfirst : ∀ first, before.head? = some first → first.isRemoved = false)
    (hseparated : Separated before) (h : walkBack (left before).reverse = .ok w) :
    w.reverse = left (before ++ currOpt :: skipped) := by
  have hlast : ∀ first, before.reverse.getLast? = some first → first.isRemoved = false := by
    intro first hfirst'
    rw [List.getLast?_reverse] at hfirst'
    exact hfirst first hfirst'
  rw [left, List.reverse_reverse] at h
  have hclear := walkBack_separated (fun opt hopt => isRemoved_of_mem_leftBack hopt)
    (by rwa [Separated, left, List.reverse_reverse] at hseparated) h
  rw [hclear, clearBack_leftBack hlast, left, List.reverse_append, List.reverse_cons,
    List.append_assoc, List.singleton_append, leftBack_append_skipped
      (fun opt hopt => hskipped opt (List.mem_reverse.mp hopt)) hremoved]

/-! ## The removed options of a rule -/

/-- For each removed option of `rest` the options before and behind it; `before` come before
`rest`. -/
def removals (before : List PlacedOption) :
    List PlacedOption → List (List PlacedOption × List PlacedOption)
  | [] => []
  | opt :: rest =>
    if opt.isRemoved then (before, rest) :: removals (before ++ [opt]) rest
    else removals (before ++ [opt]) rest

theorem removals_append {kept : List PlacedOption} (hkept : ∀ opt ∈ kept, opt.isRemoved = false)
    (before rest : List PlacedOption) :
    removals before (kept ++ rest) = removals (before ++ kept) rest := by
  induction kept generalizing before with
  | nil => rw [List.nil_append, List.append_nil]
  | cons opt kept ih =>
    rw [List.cons_append, removals, if_neg (by simp [hkept opt List.mem_cons_self]),
      ih (fun o ho => hkept o (List.mem_cons_of_mem opt ho)), List.append_assoc]
    rfl

/-- The options that the loop forwards passes are not removed. -/
theorem isRemoved_of_isSkipped {opt : PlacedOption} (h : isSkipped opt = true) :
    opt.isRemoved = false := by
  by_contra hne
  rw [isSkipped, stopsScan_of_mem_contentKw (mem_contentKw_of_isRemoved
    ((Bool.not_eq_false _).mp hne))] at h
  cases h

theorem removals_of_isRemoved {opt : PlacedOption} (h : opt.isRemoved = true)
    (before rest : List PlacedOption) :
    removals before (opt :: rest) = (before, rest) ::
      removals (before ++ opt :: rest.takeWhile isSkipped) (rest.dropWhile isSkipped) := by
  have hpassed : ∀ o ∈ rest.takeWhile isSkipped, o.isRemoved = false := fun o ho =>
    isRemoved_of_isSkipped (List.mem_takeWhile_imp ho)
  have hrest := removals_append hpassed (before ++ [opt]) (rest.dropWhile isSkipped)
  rw [List.takeWhile_append_dropWhile, List.append_assoc, List.singleton_append] at hrest
  rw [removals, if_pos h, hrest]

/-! ## The loop -/

/-- What the options in the loop keep to. -/
structure CleanInv (s : CleanState) : Prop where
  nodup : (s.newOptions ++ s.rest).Nodup
  attached : Attached isModifier inContentKw (s.newOptions ++ s.rest)
  removed : ∀ opt ∈ s.newOptions, opt.isRemoved = false

/-- A turn keeps the invariant, and takes nothing but options away. -/
theorem CleanInv.turn {newOptions rest : List PlacedOption} {currOpt : PlacedOption}
    {t : CleanState} (hinv : CleanInv ⟨newOptions, currOpt :: rest⟩)
    (h : cleanBody newOptions currOpt rest = .ok t) :
    CleanInv t ∧ (t.newOptions ++ t.rest).Sublist (newOptions ++ currOpt :: rest) := by
  obtain ⟨hnodup, hattached, hkept⟩ := hinv
  match hremoved : currOpt.isRemoved with
  | false =>
    obtain rfl := Except.ok.inj ((cleanBody_of_not_isRemoved hremoved).symm.trans h)
    have hsame : newOptions ++ [currOpt] ++ rest = newOptions ++ currOpt :: rest := by
      rw [List.append_assoc, List.singleton_append]
    refine ⟨⟨hsame ▸ hnodup, hsame ▸ hattached, fun opt hopt => ?_⟩, hsame ▸ .refl _⟩
    obtain hopt | hopt := List.mem_append.mp hopt
    · exact hkept opt hopt
    · rwa [List.mem_singleton.mp hopt]
  | true =>
    obtain ⟨hsub, hpreserved⟩ := cleanBody_preserved hremoved hattached h
    obtain ⟨w, hw, -, rfl⟩ := (cleanBody_eq_ok hremoved).mp h
    refine ⟨⟨hsub.nodup hnodup, hpreserved.attached, fun opt hopt => hkept opt ?_⟩, hsub⟩
    exact List.mem_reverse.mp ((walkBack_thinned hw).sublist.subset (List.mem_reverse.mp hopt))

theorem cleanLoop_cons_of_ok {fuel : ℕ} {newOptions rest : List PlacedOption}
    {currOpt : PlacedOption} {t : CleanState} (h : cleanBody newOptions currOpt rest = .ok t) :
    cleanLoop (fuel + 1) ⟨newOptions, currOpt :: rest⟩ = cleanLoop fuel t := by
  rw [cleanLoop, h]
  rfl

/-- The loop over the options can fail at an index only. -/
theorem cleanLoop_error {fuel : ℕ} {s : CleanState} {e : CleanError}
    (hfuel : s.rest.length ≤ fuel) (h : cleanLoop fuel s = .error e) : e = .indexError := by
  induction fuel generalizing s with
  | zero =>
    match s with
    | ⟨newOptions, []⟩ => nomatch h
    | ⟨newOptions, currOpt :: rest⟩ => exact absurd hfuel (Nat.not_succ_le_zero _)
  | succ fuel ih =>
    match s with
    | ⟨newOptions, []⟩ => nomatch h
    | ⟨newOptions, currOpt :: rest⟩ =>
      match hbody : cleanBody newOptions currOpt rest with
      | .error e' =>
        rw [cleanLoop, hbody] at h
        exact Except.error.inj h ▸ cleanBody_error hbody
      | .ok t =>
        rw [cleanLoop_cons_of_ok hbody] at h
        exact ih ((length_rest_le hbody).trans (Nat.le_of_succ_le_succ hfuel)) h

/-- What the loop returns are options of the rule, in their order. -/
theorem cleanLoop_sublist {fuel : ℕ} {s : CleanState} {out : List PlacedOption}
    (hinv : CleanInv s) (h : cleanLoop fuel s = .ok out) :
    out.Sublist (s.newOptions ++ s.rest) := by
  induction fuel generalizing s with
  | zero =>
    match s with
    | ⟨newOptions, []⟩ =>
      rw [← Except.ok.inj h, List.append_nil]
    | ⟨newOptions, currOpt :: rest⟩ => nomatch h
  | succ fuel ih =>
    match s with
    | ⟨newOptions, []⟩ =>
      rw [← Except.ok.inj h, List.append_nil]
    | ⟨newOptions, currOpt :: rest⟩ =>
      match hbody : cleanBody newOptions currOpt rest with
      | .error e =>
        rw [cleanLoop, hbody] at h
        nomatch h
      | .ok t =>
        rw [cleanLoop_cons_of_ok hbody] at h
        obtain ⟨hinv', hsub⟩ := hinv.turn hbody
        exact (ih hinv' h).trans hsub

/-- What is left is right for the options before a turn if the turn is safe and it is right for
those after it. -/
theorem cleaned_turn_iff (B : StickyBuffers) {newOptions rest out : List PlacedOption}
    {currOpt : PlacedOption} {t : CleanState} (hinv : CleanInv ⟨newOptions, currOpt :: rest⟩)
    (h : cleanBody newOptions currOpt rest = .ok t) (hout : out.Sublist (t.newOptions ++ t.rest)) :
    Cleaned B (newOptions ++ currOpt :: rest) out ↔
      (currOpt.isRemoved = true → SafeTurn B newOptions rest) ∧
        Cleaned B (t.newOptions ++ t.rest) out := by
  match hremoved : currOpt.isRemoved with
  | false =>
    obtain rfl := Except.ok.inj ((cleanBody_of_not_isRemoved hremoved).symm.trans h)
    rw [List.append_assoc, List.singleton_append]
    simp
  | true =>
    have hsafe := cleanBody_safe_iff B hremoved hinv.nodup
    obtain ⟨hsub, -, hfollowed⟩ := cleanBody_preserved hremoved hinv.attached h
    have hitems : (t.newOptions ++ t.rest).filter isPositive =
        (newOptions ++ currOpt :: rest).filter isPositive := by
      rw [← @map_fst_followed _ _ isModifier, hfollowed, map_fst_followed]
    have hgoverning : used isPositive (isSticky B) (newOptions ++ currOpt :: rest) ⊆
          t.newOptions ++ t.rest →
        governing isPositive (isSticky B) none (t.newOptions ++ t.rest) =
          governing isPositive (isSticky B) none (newOptions ++ currOpt :: rest) := fun hused =>
      governing_of_sublist hsub hinv.nodup hitems hused none
    constructor
    · intro hcleaned
      have hused := List.Subset.trans (used_subset_of_governing_eq hcleaned.governing) hout.subset
      refine ⟨fun _ => hsafe.mp ⟨t, h, hused⟩, hcleaned.removed, ?_, ?_⟩
      · rw [hcleaned.followed, hfollowed]
      · rw [hcleaned.governing, hgoverning hused]
    · rintro ⟨hturn, hcleaned⟩
      obtain ⟨u, hu, hused⟩ := hsafe.mpr (hturn rfl)
      obtain rfl := Except.ok.inj (h.symm.trans hu)
      refine ⟨hcleaned.removed, ?_, ?_⟩
      · rw [hcleaned.followed, hfollowed]
      · rw [hcleaned.governing, hgoverning hused]

/-- The loop has come to `rest`, of the options `before` those are left that should be, and the loop
forwards has passed all that it passes. -/
structure CleanedUpTo (before rest : List PlacedOption) : Prop where
  inv : CleanInv ⟨left before, rest⟩
  head : ∀ opt, rest.head? = some opt → isSkipped opt = true → afterRemoved before.reverse = false
  first : ∀ opt, before.head? = some opt → opt.isRemoved = false

/-- A turn that keeps its option. -/
theorem CleanedUpTo.keep {before rest : List PlacedOption} {currOpt : PlacedOption}
    (h : CleanedUpTo before (currOpt :: rest)) (hremoved : currOpt.isRemoved = false) :
    cleanBody (left before) currOpt rest = .ok ⟨left (before ++ [currOpt]), rest⟩ ∧
      left before ++ currOpt :: rest = left (before ++ [currOpt]) ++ rest ∧
        CleanedUpTo (before ++ [currOpt]) rest := by
  have hleft := left_concat hremoved (h.head currOpt rfl)
  have hbody : cleanBody (left before) currOpt rest = .ok ⟨left (before ++ [currOpt]), rest⟩ := by
    rw [hleft]
    exact cleanBody_of_not_isRemoved hremoved
  refine ⟨hbody, ?_, (h.inv.turn hbody).1, fun opt hopt hskipped => ?_, fun opt hopt => ?_⟩
  · rw [hleft, List.append_assoc, List.singleton_append]
  · rw [List.reverse_append, List.reverse_singleton, List.singleton_append, afterRemoved]
    by_cases hcurr : isSkipped currOpt = true
    · rw [List.find?_cons_of_neg (by simp [hcurr])]
      exact h.head currOpt rfl hcurr
    · rw [List.find?_cons_of_pos (by simp [hcurr])]
      exact hremoved
  · cases before with
    | nil => exact Option.some.inj hopt ▸ hremoved
    | cons y before => exact h.first opt hopt

/-- A turn that removes its option, if it does not fail. -/
theorem CleanedUpTo.remove {before rest : List PlacedOption} {currOpt : PlacedOption}
    {t : CleanState} (h : CleanedUpTo before (currOpt :: rest))
    (hremoved : currOpt.isRemoved = true) (hseparated : Separated before)
    (hbody : cleanBody (left before) currOpt rest = .ok t) :
    t = ⟨left (before ++ currOpt :: rest.takeWhile isSkipped), rest.dropWhile isSkipped⟩ ∧
      CleanedUpTo (before ++ currOpt :: rest.takeWhile isSkipped) (rest.dropWhile isSkipped) := by
  have hinv := (h.inv.turn hbody).1
  obtain ⟨w, hw, hne, rfl⟩ := (cleanBody_eq_ok hremoved).mp hbody
  have hskipped : ∀ opt ∈ rest.takeWhile isSkipped, isSkipped opt = true := fun opt hopt =>
    List.mem_takeWhile_imp hopt
  have hleft := walkBack_left hremoved hskipped h.first hseparated hw
  rw [hleft] at hinv
  refine ⟨by rw [hleft], hinv, fun opt hopt hskips => ?_, fun opt hopt => ?_⟩
  · -- the loop forwards has stopped here
    have hstop := List.head_dropWhile_not isSkipped hne
    rw [List.head?_eq_some_head hne] at hopt
    rw [Option.some.inj hopt, hskips] at hstop
    cases hstop
  · cases before with
    | nil => cases hw
    | cons y before => exact h.first opt hopt

/-- The loop leaves what it should exactly when all options that it removes are safe. -/
theorem cleanLoop_cleaned_iff (B : StickyBuffers) {fuel : ℕ} {before rest : List PlacedOption}
    (hfuel : rest.length ≤ fuel) (h : CleanedUpTo before rest)
    (hseparated : ∀ x ∈ removals before rest, Separated x.1) :
    (∃ out, cleanLoop fuel ⟨left before, rest⟩ = .ok out ∧ Cleaned B (left before ++ rest) out) ↔
      ∀ x ∈ removals before rest, SafeTurn B (left x.1) x.2 := by
  induction fuel generalizing before rest with
  | zero =>
    obtain rfl := List.length_eq_zero_iff.mp (Nat.le_zero.mp hfuel)
    refine iff_of_true ⟨left before, rfl, ?_⟩ fun x hx => absurd hx List.not_mem_nil
    rw [List.append_nil]
    exact ⟨h.inv.removed, rfl, rfl⟩
  | succ fuel ih =>
    cases rest with
    | nil =>
      refine iff_of_true ⟨left before, rfl, ?_⟩ fun x hx => absurd hx List.not_mem_nil
      rw [List.append_nil]
      exact ⟨h.inv.removed, rfl, rfl⟩
    | cons currOpt rest =>
      cases hremoved : currOpt.isRemoved with
      | false =>
        obtain ⟨hbody, hwhole, hnext⟩ := h.keep hremoved
        have hremovals : removals before (currOpt :: rest) =
            removals (before ++ [currOpt]) rest := by
          rw [removals, if_neg (by simp [hremoved])]
        rw [hremovals] at hseparated ⊢
        rw [cleanLoop_cons_of_ok hbody, hwhole]
        exact ih (Nat.le_of_succ_le_succ hfuel) hnext hseparated
      | true =>
        rw [removals_of_isRemoved hremoved, List.forall_mem_cons] at hseparated ⊢
        cases hbody : cleanBody (left before) currOpt rest with
        | error e =>
          -- a turn that fails is not safe
          refine iff_of_false (fun ⟨out, hout, _⟩ => ?_) fun ⟨hturn, _⟩ => ?_
          · rw [cleanLoop, hbody] at hout
            cases hout
          · obtain ⟨t, ht, -⟩ := (cleanBody_safe_iff B hremoved h.inv.nodup).mpr hturn
            cases hbody.symm.trans ht
        | ok t =>
          have hlen := (length_rest_le hbody).trans (Nat.le_of_succ_le_succ hfuel)
          obtain ⟨rfl, hnext⟩ := h.remove hremoved hseparated.1 hbody
          rw [cleanLoop_cons_of_ok hbody, ← ih hlen hnext hseparated.2]
          -- the turn is safe, and what comes after it is right
          constructor
          · rintro ⟨out, hout, hcleaned⟩
            rw [cleaned_turn_iff B h.inv hbody (cleanLoop_sublist hnext.inv hout)] at hcleaned
            exact ⟨hcleaned.1 hremoved, out, hout, hcleaned.2⟩
          · rintro ⟨hsafe, out, hout, hcleaned⟩
            refine ⟨out, hout, ?_⟩
            rw [cleaned_turn_iff B h.inv hbody (cleanLoop_sublist hnext.inv hout)]
            exact ⟨fun _ => hsafe, hcleaned⟩

/-! ## The options of a rule -/

theorem length_placed (r : Rule) : r.placed.length = r.options.length := by
  rw [Rule.placed, List.length_map, List.length_zipIdx]

/-- The loop ends, and it fails with an index error only. -/
theorem cleanOptions_error {r : Rule} {e : CleanError} (h : cleanOptions r = .error e) :
    e = .indexError :=
  cleanLoop_error (length_placed r.supported).le h

-- a negated content with nothing before it
example : cleanOptions ⟨[⟨"content".toList, "!a".toList⟩, ⟨"sid".toList, "1".toList⟩]⟩ =
    .error .indexError := by decide

theorem nodup_placed (r : Rule) : r.placed.Nodup := by
  have hplaces : r.placed.map PlacedOption.place = List.range' 0 r.options.length := by
    rw [Rule.placed, List.map_map]
    exact List.zipIdx_map_snd 0 r.options
  refine List.Nodup.of_map PlacedOption.place ?_
  rw [hplaces]
  exact List.nodup_range'

/-- The loop over the options of a rule, in which modifiers come after contents and expressions
only, leaves what it should exactly when all options that it removes are safe, unless the loop
backwards passes a buffer or runs into the buffers of an earlier content. -/
theorem cleanOptions_cleaned_iff (B : StickyBuffers) (r : Rule)
    (hattached : Attached isModifier inContentKw r.supported.placed)
    (hseparated : ∀ x ∈ removals [] r.supported.placed, Separated x.1) :
    (∃ out, cleanOptions r = .ok out ∧ Cleaned B r.supported.placed out) ↔
      ∀ x ∈ removals [] r.supported.placed, SafeTurn B (left x.1) x.2 :=
  @cleanLoop_cleaned_iff B _ [] _ (length_placed r.supported).le
    ⟨⟨nodup_placed r.supported, hattached, fun _ hopt => absurd hopt List.not_mem_nil⟩,
      fun _ _ _ => rfl, fun opt h => absurd h (Option.not_mem_none opt)⟩ hseparated

/-- A negated content under a buffer of its own. -/
def ruleNegatedLast : Rule where
  options := [⟨"msg".toList, "a".toList⟩, ⟨"content".toList, "b".toList⟩, ⟨"nocase".toList, []⟩,
    ⟨"http.uri".toList, []⟩, ⟨"content".toList, "!c".toList⟩, ⟨"nocase".toList, []⟩,
    ⟨"sid".toList, "1".toList⟩]

theorem safeTurn_ruleNegatedLast :
    (∃ out, cleanOptions ruleNegatedLast = .ok out ∧
      Cleaned .httpDns ruleNegatedLast.supported.placed out) ∧
    ∀ x ∈ removals [] ruleNegatedLast.supported.placed, SafeTurn .httpDns (left x.1) x.2 := by
  have hcleaned : ∃ out, cleanOptions ruleNegatedLast = .ok out ∧
      Cleaned .httpDns ruleNegatedLast.supported.placed out :=
    ⟨ruleNegatedLast.placed.eraseIdx 3 |>.eraseIdx 3 |>.eraseIdx 3, by decide +kernel,
      by decide +kernel, by decide +kernel, by decide +kernel⟩
  have hsafe := (cleanOptions_cleaned_iff .httpDns ruleNegatedLast (by decide) (by decide)).mp
    hcleaned
  exact ⟨hcleaned, hsafe⟩

/-- A negated content and another one under the same buffer. -/
def ruleNegatedFirst : Rule where
  options := [⟨"msg".toList, "a".toList⟩, ⟨"flow".toList, "established".toList⟩,
    ⟨"http.uri".toList, []⟩, ⟨"content".toList, "!b".toList⟩, ⟨"content".toList, "c".toList⟩,
    ⟨"sid".toList, "1".toList⟩]

/-- The buffer is deleted with the negated content. -/
theorem not_cleaned_ruleNegatedFirst :
    ruleNegatedFirst.getOption "sid" ≠ [] ∧
      Attached isModifier inContentKw ruleNegatedFirst.supported.placed ∧
      ¬ ∃ out, cleanOptions ruleNegatedFirst = .ok out ∧
        Cleaned .httpDns ruleNegatedFirst.supported.placed out := by
  refine ⟨by decide, by decide, ?_⟩
  rintro ⟨out, hout, hcleaned⟩
  have heval : cleanOptions ruleNegatedFirst =
      .ok (ruleNegatedFirst.placed.eraseIdx 2 |>.eraseIdx 2) := by decide +kernel
  obtain rfl := Except.ok.inj (heval.symm.trans hout)
  exact absurd hcleaned.governing (by decide +kernel)

end Data
end PamoRxpBench
