import Mathlib.Data.List.Chain
import Mathlib.Data.List.Nodup

/-!
# Scopes in a list

A marker holds for the items that come after it, up to the next marker, and followers belong to
the item right before them.

* `governing_of_sublist`: when only markers that no item is under are taken out of a list, every
  item stays under the same one;
* `Thinned.followed`, `followed_skip`: items keep their followers when loose elements are taken
  out, and when a block between them is.
-/

namespace PamoRxpBench
namespace Scopes

variable {α : Type}

/-! ## Markers -/

section
variable (item marker : α → Bool)

/-- For each item the marker it is under, the nearest one before it; `cur` is the last marker so
far. -/
def governing : Option α → List α → List (Option α)
  | _, [] => []
  | cur, a :: l =>
    if item a then cur :: governing cur l
    else if marker a then governing (some a) l
    else governing cur l

/-- Whether an item is reached from before `a` ahead of the next marker; `g` says it for the part
after `a`. -/
def passes (g : Bool) (a : α) : Bool := item a || (!marker a && g)

/-- An item comes before the next marker. -/
def reaches : List α → Bool
  | [] => false
  | a :: l => passes item marker (reaches l) a

/-- The markers that some item is under. -/
def used : List α → List α
  | [] => []
  | a :: l => if !item a && marker a && reaches item marker l then a :: used l else used l

/-- The markers of a reversed list that some item is under; `g` says whether the part that comes
after it reaches an item. -/
def usedBack : Bool → List α → List α
  | _, [] => []
  | g, a :: r =>
    if !item a && marker a && g then a :: usedBack (passes item marker g a) r
    else usedBack (passes item marker g a) r

end

variable {item marker : α → Bool}

/-- The markers that are used are in the list. -/
theorem used_subset (l : List α) : used item marker l ⊆ l := by
  induction l with
  | nil => exact List.Subset.refl _
  | cons a l ih =>
    rw [used]
    split
    · exact List.cons_subset_cons a ih
    · exact List.subset_cons_of_subset a ih

theorem usedBack_subset (g : Bool) (r : List α) : usedBack item marker g r ⊆ r := by
  induction r generalizing g with
  | nil => exact List.Subset.refl _
  | cons a r ih =>
    rw [usedBack]
    split
    · exact List.cons_subset_cons a (ih _)
    · exact List.subset_cons_of_subset a (ih _)

/-- An element that stays does not matter. -/
theorem usedBack_cons_subset_cons_iff {g : Bool} {a : α} {r w : List α} (ha : a ∉ r) :
    usedBack item marker g (a :: r) ⊆ a :: w ↔
      usedBack item marker (passes item marker g a) r ⊆ w := by
  have hback : usedBack item marker (passes item marker g a) r ⊆ a :: w ↔
      usedBack item marker (passes item marker g a) r ⊆ w := by
    refine ⟨fun h s hs => ?_, List.subset_cons_of_subset a⟩
    exact (List.mem_cons.mp (h hs)).resolve_left fun heq => ha (heq ▸ usedBack_subset _ r hs)
  rw [usedBack]
  split
  · rw [List.cons_subset, hback]
    exact and_iff_right List.mem_cons_self
  · exact hback

/-- A marker that goes must not reach an item; it ends the scope of those before it. -/
theorem usedBack_cons_subset_iff {g : Bool} {a : α} {r w : List α} (hitem : item a = false)
    (hmarker : marker a = true) (ha : a ∉ w) :
    usedBack item marker g (a :: r) ⊆ w ↔ g = false ∧ usedBack item marker false r ⊆ w := by
  rw [usedBack, passes, hitem, hmarker, Bool.not_false, Bool.true_and, Bool.true_and,
    Bool.not_true, Bool.false_and, Bool.or_false]
  match g with
  | true => simp [ha]
  | false => simp

theorem used_cons_subset (a : α) (l : List α) : used item marker l ⊆ used item marker (a :: l) := by
  rw [used]
  split
  · exact List.subset_cons_self a _
  · exact List.Subset.refl _

/-- The markers in front of a list, seen from behind. -/
theorem mem_used_reverse_append {s : α} (r l : List α) :
    s ∈ used item marker (r.reverse ++ l) ↔
      s ∈ usedBack item marker (reaches item marker l) r ∨ s ∈ used item marker l := by
  induction r generalizing l with
  | nil => simp [usedBack]
  | cons a r ih =>
    rw [List.reverse_cons, List.append_assoc, List.singleton_append, ih, usedBack, used]
    show s ∈ usedBack item marker (passes item marker (reaches item marker l) a) r ∨ _ ↔ _
    split
    · rw [List.mem_cons, List.mem_cons, or_left_comm, or_assoc]
    · rfl

/-- Elements that are no items let a marker through, if none of them is a marker. -/
theorem reaches_append_of_no_item {m : List α} (h : ∀ a ∈ m, item a = false) (l : List α) :
    reaches item marker (m ++ l) = (!m.any marker && reaches item marker l) := by
  induction m with
  | nil => rfl
  | cons a m ih =>
    rw [List.cons_append, reaches, passes, ih fun b hb => h b (List.mem_cons_of_mem a hb),
      h a List.mem_cons_self, List.any_cons, Bool.false_or, Bool.not_or, Bool.and_assoc]

/-- A block without items can go unless a marker of it reaches an item behind the block. -/
theorem used_append_subset_iff {m l : List α} (h : ∀ a ∈ m, item a = false)
    (hnodup : (m ++ l).Nodup) :
    used item marker (m ++ l) ⊆ l ↔ (m.any marker = true → reaches item marker l = false) := by
  induction m with
  | nil => simp [used_subset]
  | cons a m ih =>
    have hm : ∀ b ∈ m, item b = false := fun b hb => h b (List.mem_cons_of_mem a hb)
    obtain ⟨ha, hnodup⟩ := List.nodup_cons.mp hnodup
    rw [List.cons_append, used, h a List.mem_cons_self, reaches_append_of_no_item hm, List.any_cons]
    split
    · -- `a` is used, so the block cannot go
      have hal : a ∉ l := fun hal => ha (List.mem_append_right m hal)
      simp_all
    · rw [ih hm hnodup]
      grind

/-- The same when what is in front of the block, `r` from behind, is cut down to `w`. -/
theorem used_reverse_append_subset_iff {r m l w : List α} (h : ∀ a ∈ m, item a = false)
    (hnodup : (r.reverse ++ (m ++ l)).Nodup) (hw : w ⊆ r) :
    used item marker (r.reverse ++ (m ++ l)) ⊆ w.reverse ++ l ↔
      (m.any marker = true → reaches item marker l = false) ∧
        usedBack item marker (reaches item marker l) r ⊆ w := by
  obtain ⟨-, hnodup', hdisjoint⟩ := List.nodup_append'.mp hnodup
  rw [← used_append_subset_iff h hnodup']
  have hparts : used item marker (r.reverse ++ (m ++ l)) ⊆ w.reverse ++ l ↔
      usedBack item marker (reaches item marker (m ++ l)) r ⊆ w ∧
        used item marker (m ++ l) ⊆ l := by
    constructor
    · refine fun hsub => ⟨fun s hs => ?_, fun s hs => ?_⟩
      · have hr : s ∈ r.reverse := List.mem_reverse.mpr (usedBack_subset _ r hs)
        have hmem := hsub ((mem_used_reverse_append r _).mpr (Or.inl hs))
        refine List.mem_reverse.mp ((List.mem_append.mp hmem).resolve_right fun hl => ?_)
        exact hdisjoint hr (List.mem_append_right m hl)
      · have hmem := hsub ((mem_used_reverse_append r _).mpr (Or.inr hs))
        refine (List.mem_append.mp hmem).resolve_left fun hs' => ?_
        exact hdisjoint (List.mem_reverse.mpr (hw (List.mem_reverse.mp hs'))) (used_subset _ hs)
    · rintro ⟨hback, hfront⟩ s hs
      obtain hs | hs := (mem_used_reverse_append r _).mp hs
      · exact List.mem_append_left l (List.mem_reverse.mpr (hback hs))
      · exact List.mem_append_right _ (hfront hs)
  rw [hparts, and_comm]
  refine and_congr_right fun hfront => ?_
  -- a block that can go does not stand between an item and the markers in front
  rw [used_append_subset_iff h hnodup'] at hfront
  have hreaches : reaches item marker (m ++ l) = reaches item marker l := by
    rw [reaches_append_of_no_item h]
    match hany : m.any marker with
    | false => rfl
    | true => rw [hfront hany]; rfl
  rw [hreaches]

/-- Without an item ahead of the next marker, the marker so far does not matter. -/
theorem governing_eq_of_not_reaches {l : List α} (h : reaches item marker l = false)
    (cur cur' : Option α) : governing item marker cur l = governing item marker cur' l := by
  induction l with
  | nil => rfl
  | cons a l ih =>
    simp only [reaches, passes, Bool.or_eq_false_iff, Bool.and_eq_false_iff,
      Bool.not_eq_false'] at h
    simp only [governing, h.1, Bool.false_eq_true, if_false]
    split
    · rfl
    · exact ih (h.2.resolve_left ‹_›)

/-- An item is under a marker from before the list that reaches it, or under one of the list. -/
theorem mem_governing_iff {s : α} (cur : Option α) (l : List α) :
    some s ∈ governing item marker cur l ↔
      (cur = some s ∧ reaches item marker l = true) ∨ s ∈ used item marker l := by
  induction l generalizing cur with
  | nil => simp [governing, reaches, used]
  | cons a l ih =>
    rw [governing, reaches, passes, used]
    by_cases hitem : item a = true
    · simp only [hitem, if_true, List.mem_cons, ih, Bool.true_or, Bool.not_true, Bool.false_and,
        Bool.false_eq_true, if_false]
      grind
    · by_cases hmarker : marker a = true
      · rw [if_neg hitem, if_pos hmarker, ih]
        grind
      · rw [if_neg hitem, if_neg hmarker, ih]
        grind

/-- Every item stays under its marker when markers that no item is under, and others that are
not items, are taken out. -/
theorem governing_of_sublist {l l' : List α} (h : l'.Sublist l) (hnodup : l.Nodup)
    (hitems : l'.filter item = l.filter item) (hused : used item marker l ⊆ l')
    (cur : Option α) : governing item marker cur l' = governing item marker cur l := by
  induction h generalizing cur with
  | slnil => rfl
  | @cons l' l a hsub ih =>
    obtain ⟨ha, hnodup⟩ := List.nodup_cons.mp hnodup
    -- an item is not taken out
    have hitem : item a = false := by
      refine Bool.eq_false_iff.mpr fun hitem => ?_
      have hlen := congrArg List.length hitems
      rw [List.filter_cons_of_pos hitem, List.length_cons] at hlen
      have := (hsub.filter item).length_le
      omega
    rw [List.filter_cons_of_neg (by simp [hitem])] at hitems
    have hrest := ih hnodup hitems (List.Subset.trans (used_cons_subset a l) hused) cur
    rw [hrest, governing, if_neg (by simp [hitem])]
    split
    · -- nor is a marker that an item is under
      refine governing_eq_of_not_reaches (Bool.eq_false_iff.mpr fun hreach => ha ?_) _ _
      apply hsub.subset
      apply hused
      rw [used, if_pos (by simp [hitem, hreach, ‹marker a = true›])]
      exact List.mem_cons_self
    · rfl
  | @cons_cons l' l a hsub ih =>
    obtain ⟨ha, hnodup⟩ := List.nodup_cons.mp hnodup
    have hitems : l'.filter item = l.filter item := by
      rw [List.filter_cons, List.filter_cons] at hitems
      split at hitems
      · exact (List.cons.inj hitems).2
      · exact hitems
    have hused : used item marker l ⊆ l' := fun s hs =>
      (List.mem_cons.mp (hused (used_cons_subset a l hs))).resolve_left
        fun heq => ha (heq ▸ used_subset l hs)
    simp only [governing, ih hnodup hitems hused]

/-- Otherwise some item is under another one. -/
theorem used_subset_of_governing_eq {l l' : List α}
    (h : governing item marker none l' = governing item marker none l) :
    used item marker l ⊆ l' := fun s hs => by
  have hmem := (mem_governing_iff none l).mpr (Or.inr hs)
  rw [← h, mem_governing_iff] at hmem
  exact used_subset l' (hmem.resolve_left fun hnone => nomatch hnone.1)

/-! ## Followers -/

section
variable (item follower bears : α → Bool)

/-- The items with the followers right after each. -/
def followed : List α → List (α × List α)
  | [] => []
  | a :: l => if item a then (a, l.takeWhile follower) :: followed l else followed l

/-- A follower comes right after an element that can have some, or after another follower. -/
def Attached (l : List α) : Prop :=
  List.IsChain (fun a b => follower b = true → bears a = true ∨ follower a = true) l

instance (l : List α) : Decidable (Attached follower bears l) :=
  inferInstanceAs (Decidable (List.IsChain _ l))

end

/-- Some of the loose elements of `l` are taken out. -/
structure Thinned (loose : α → Bool) (l l' : List α) : Prop where
  sublist : l'.Sublist l
  kept : l'.filter (fun a => !loose a) = l.filter fun a => !loose a

variable {follower bears loose : α → Bool}

theorem Thinned.refl (l : List α) : Thinned loose l l := ⟨List.Sublist.refl l, rfl⟩

theorem Thinned.reverse {l l' : List α} (h : Thinned loose l l') :
    Thinned loose l.reverse l'.reverse := by
  refine ⟨h.sublist.reverse, ?_⟩
  rw [List.filter_reverse, List.filter_reverse, h.kept]

theorem Thinned.append_right {l l' : List α} (h : Thinned loose l l') (t : List α) :
    Thinned loose (l ++ t) (l' ++ t) := by
  refine ⟨h.sublist.append_right t, ?_⟩
  rw [List.filter_append, List.filter_append, h.kept]

theorem Thinned.cons {l l' : List α} (a : α) (h : Thinned loose l l') :
    Thinned loose (a :: l) (a :: l') := by
  refine ⟨h.sublist.cons_cons a, ?_⟩
  rw [List.filter_cons, List.filter_cons, h.kept]

theorem Thinned.drop {l l' : List α} {a : α} (ha : loose a = true) (h : Thinned loose l l') :
    Thinned loose (a :: l) l' := by
  refine ⟨h.sublist.cons a, ?_⟩
  rw [List.filter_cons_of_neg (by simp [ha]), h.kept]

/-- Loose elements are no items, no followers, and have none. -/
structure Loosely (item follower bears loose : α → Bool) : Prop where
  item : ∀ a, loose a = true → item a = false
  follower : ∀ a, loose a = true → follower a = false
  bears : ∀ a, loose a = true → bears a = false

/-- Followers come after what bears them or after other followers. -/
theorem attached_cons {a : α} {l : List α} :
    Attached follower bears (a :: l) ↔
      (l.takeWhile follower ≠ [] → bears a = true ∨ follower a = true) ∧
        Attached follower bears l := by
  unfold Attached
  rw [List.isChain_cons]
  refine and_congr_left fun _ => ?_
  match l with
  | [] => simp
  | b :: l =>
    rw [List.head?_cons, List.takeWhile_cons]
    by_cases hb : follower b = true <;> simp [hb]

/-- What stays when loose elements are taken out. -/
structure Preserved (item follower bears : α → Bool) (l l' : List α) : Prop where
  attached : Attached follower bears l'
  followed : followed item follower l' = followed item follower l

theorem Preserved.trans {l m t : List α} (h : Preserved item follower bears l m)
    (h' : Preserved item follower bears m t) : Preserved item follower bears l t :=
  ⟨h'.attached, h'.followed.trans h.followed⟩

/-- What is left out is loose, so the items keep their followers. -/
theorem Thinned.preserved (hloose : Loosely item follower bears loose) {l l' : List α}
    (h : Thinned loose l l') (hl : Attached follower bears l) :
    l'.takeWhile follower = l.takeWhile follower ∧ Preserved item follower bears l l' := by
  obtain ⟨hsub, hkept⟩ := h
  induction hsub with
  | slnil => exact ⟨rfl, hl, rfl⟩
  | @cons l' l a hsub ih =>
    obtain ⟨hhead, hl⟩ := attached_cons.mp hl
    have ha : loose a = true := by
      by_contra ha
      have hlen := congrArg List.length hkept
      rw [List.filter_cons_of_pos (by simpa using ha), List.length_cons] at hlen
      have := (hsub.filter fun a => !loose a).length_le
      omega
    rw [List.filter_cons_of_neg (by simp [ha])] at hkept
    obtain ⟨hrun, hattached, hfollowed⟩ := ih hl hkept
    -- no follower comes after a loose element
    have hnil : l.takeWhile follower = [] := by
      by_contra hne
      have := hhead hne
      rw [hloose.bears a ha, hloose.follower a ha] at this
      simp at this
    refine ⟨?_, hattached, ?_⟩
    · rw [hrun, hnil, List.takeWhile_cons_of_neg (by simp [hloose.follower a ha])]
    · rw [hfollowed, Scopes.followed, if_neg (by simp [hloose.item a ha])]
  | @cons_cons l' l a hsub ih =>
    obtain ⟨hhead, hl⟩ := attached_cons.mp hl
    have hkept : l'.filter (fun a => !loose a) = l.filter fun a => !loose a := by
      rw [List.filter_cons, List.filter_cons] at hkept
      split at hkept
      · exact (List.cons.inj hkept).2
      · exact hkept
    obtain ⟨hrun, hattached, hfollowed⟩ := ih hl hkept
    refine ⟨?_, attached_cons.mpr ⟨hrun ▸ hhead, hattached⟩, ?_⟩
    · rw [List.takeWhile_cons, List.takeWhile_cons, hrun]
    · rw [Scopes.followed, Scopes.followed, hrun, hfollowed]

theorem followed_append_of_no_item {m : List α} (h : ∀ a ∈ m, item a = false) (l : List α) :
    followed item follower (m ++ l) = followed item follower l := by
  induction m with
  | nil => rfl
  | cons a m ih =>
    rw [List.cons_append, followed, if_neg (by simp [h a List.mem_cons_self])]
    exact ih fun b hb => h b (List.mem_cons_of_mem a hb)

/-- The same when a block without items is taken out, from an element that is no follower up to
another one. -/
theorem preserved_skip {a b : α} {l m t : List α} (hitems : ∀ x ∈ a :: m, item x = false)
    (ha : follower a = false) (hb : follower b = false)
    (hl : Attached follower bears (l ++ a :: m ++ b :: t)) :
    Preserved item follower bears (l ++ a :: m ++ b :: t) (l ++ b :: t) := by
  rw [List.append_assoc] at hl ⊢
  induction l with
  | nil => exact ⟨hl.suffix ⟨a :: m, rfl⟩, (followed_append_of_no_item hitems _).symm⟩
  | cons x l ih =>
    obtain ⟨hhead, hl⟩ := attached_cons.mp hl
    have hrun : (l ++ b :: t).takeWhile follower =
        (l ++ (a :: m ++ b :: t)).takeWhile follower := by
      rw [List.takeWhile_append, List.takeWhile_append, List.takeWhile_cons_of_neg (by simp [hb]),
        List.cons_append, List.takeWhile_cons_of_neg (by simp [ha])]
    obtain ⟨hattached, hfollowed⟩ := ih hl
    refine ⟨attached_cons.mpr ⟨fun hne => hhead (hrun ▸ hne), hattached⟩, ?_⟩
    rw [List.cons_append, List.cons_append, followed, followed, hrun, hfollowed]

/-- The items are what they follow. -/
theorem map_fst_followed (l : List α) :
    (followed item follower l).map Prod.fst = l.filter item := by
  induction l with
  | nil => rfl
  | cons a l ih =>
    rw [followed, List.filter_cons]
    split
    · rw [List.map_cons, ih]
    · exact ih

end Scopes
end PamoRxpBench
