import Konsul.Lib.Machine
import Mathlib.Data.List.Nodup

/-!
# Linearizability

An object is used concurrently: calls of it are answered later or never, and other calls
come in between. `Linearizes` says that an order of calls explains what was seen: the
answers are those of a machine that takes the calls in that order, and a call that was
answered before another one was made comes before it. An order grows by rules: a call is
made, it takes effect at the end, it is answered; and a call that changes nothing may be
answered from an earlier state, as long as what was answered before it was made lies
before that state (`insert`).
-/

namespace GoLib

/-- What is seen of an object at its interface. -/
inductive Happening (K C O : Type*) where
  | call (k : K) (c : C)
  | answer (k : K) (o : O)

theorem pair_sublist_snoc {α : Type*} {l : List α} {a b x : α} :
    [a, b].Sublist (l ++ [x]) ↔ [a, b].Sublist l ∨ a ∈ l ∧ b = x := by
  constructor
  · intro h
    obtain ⟨l₁, l₂, hsplit, h₁, h₂⟩ := List.sublist_append_iff.mp h
    have hlen := congrArg List.length hsplit
    have hle := h₂.length_le
    simp only [List.length_cons, List.length_nil, List.length_append] at hlen hle
    match l₁, hsplit with
    | [], _ =>
      simp only [List.length_nil] at hlen
      omega
    | [a'], hsplit =>
      obtain ⟨rfl, rfl⟩ := List.cons.inj hsplit
      exact Or.inr ⟨List.singleton_sublist.mp h₁, List.mem_singleton.mp (List.singleton_sublist.mp h₂)⟩
    | a' :: b' :: l₁, hsplit =>
      simp only [List.length_cons] at hlen
      have hl₂ : l₂ = [] := List.length_eq_zero_iff.mp (by omega)
      rw [hl₂, List.append_nil] at hsplit
      exact Or.inl (hsplit ▸ h₁)
  · intro h
    rcases h with h | h
    · exact h.trans (List.sublist_append_left l [x])
    · exact List.Sublist.append (List.singleton_sublist.mpr h.1) (h.2 ▸ List.Sublist.refl _)

namespace Machine

variable {S C O K : Type*} {M : Machine S C O} {s : S}

structure Linearizes (M : Machine S C O) (s : S) (history : List (Happening K C O))
    (order : List (K × C)) : Prop where
  once : (order.map Prod.fst).Nodup
  called : ∀ p ∈ order, Happening.call p.1 p.2 ∈ history
  answered : ∀ k o, Happening.answer k o ∈ history →
    ∃ c, ((k, c), o) ∈ order.zip (M.run s (order.map Prod.snd)).2
  /-- `k` was answered before `k'` was called. -/
  realtime : ∀ k o k' c, [Happening.answer k o, .call k' c].Sublist history →
    k' ∈ order.map Prod.fst → [k, k'].Sublist (order.map Prod.fst)

theorem linearizes_nil : M.Linearizes s ([] : List (Happening K C O)) [] where
  once := List.nodup_nil
  called _ hp := absurd hp List.not_mem_nil
  answered _ _ hk := absurd hk List.not_mem_nil
  realtime _ _ _ _ _ hk' := absurd hk' List.not_mem_nil

/-- The calls of an order with their answers. -/
theorem zip_run_append (s : S) (a b : List (K × C)) :
    (a ++ b).zip (M.run s ((a ++ b).map Prod.snd)).2 =
      a.zip (M.run s (a.map Prod.snd)).2 ++
        b.zip (M.run (M.run s (a.map Prod.snd)).1 (b.map Prod.snd)).2 := by
  rw [List.map_append, M.run_append]
  refine List.zip_append ?_
  rw [M.length_answers, List.length_map]

variable {history : List (Happening K C O)} {order : List (K × C)}

theorem Linearizes.mem_of_answered (h : M.Linearizes s history order) {k : K} {o : O}
    (hk : Happening.answer k o ∈ history) : k ∈ order.map Prod.fst := by
  obtain ⟨c, hc⟩ := h.answered k o hk
  exact List.mem_map_of_mem (List.of_mem_zip hc).1

/-- A call with a new name is made. -/
theorem Linearizes.call (h : M.Linearizes s history order) {k : K} (hnew : k ∉ order.map Prod.fst)
    (c : C) : M.Linearizes s (history ++ [.call k c]) order where
  once := h.once
  called p hp := List.mem_append_left _ (h.called p hp)
  answered k' o hk' := by
    rcases List.mem_append.mp hk' with hk' | hk'
    · exact h.answered k' o hk'
    · cases List.mem_singleton.mp hk'
  realtime k₁ o k₂ c' hsub hk₂ := by
    rcases pair_sublist_snoc.mp hsub with hsub | hsub
    · exact h.realtime k₁ o k₂ c' hsub hk₂
    · cases hsub.2
      exact absurd hk₂ hnew

/-- A call that was made takes effect. -/
theorem Linearizes.effect (h : M.Linearizes s history order) {k : K} {c : C}
    (hcalled : Happening.call k c ∈ history) (hnew : k ∉ order.map Prod.fst) :
    M.Linearizes s history (order ++ [(k, c)]) where
  once := by
    rw [List.map_append]
    show (order.map Prod.fst ++ [k]).Nodup
    rw [← List.concat_eq_append]
    exact h.once.concat hnew
  called p hp := by
    rcases List.mem_append.mp hp with hp | hp
    · exact h.called p hp
    · rw [List.mem_singleton.mp hp]
      exact hcalled
  answered k' o hk' := by
    obtain ⟨c', hc'⟩ := h.answered k' o hk'
    rw [zip_run_append]
    exact ⟨c', List.mem_append_left _ hc'⟩
  realtime k₁ o k₂ c' hsub hk₂ := by
    rw [List.map_append] at hk₂ ⊢
    have hk₁ := h.mem_of_answered (hsub.subset (List.mem_cons_self ..))
    rcases List.mem_append.mp hk₂ with hk₂ | hk₂
    · exact (h.realtime k₁ o k₂ c' hsub hk₂).trans (List.sublist_append_left _ _)
    · exact pair_sublist_snoc.mpr (Or.inr ⟨hk₁, List.mem_singleton.mp hk₂⟩)

/-- A call that took effect is answered with what the machine says. -/
theorem Linearizes.answer (h : M.Linearizes s history order) {k : K} {c : C} {o : O}
    (ho : ((k, c), o) ∈ order.zip (M.run s (order.map Prod.snd)).2) :
    M.Linearizes s (history ++ [.answer k o]) order where
  once := h.once
  called p hp := List.mem_append_left _ (h.called p hp)
  answered k' o' hk' := by
    rcases List.mem_append.mp hk' with hk' | hk'
    · exact h.answered k' o' hk'
    · cases List.mem_singleton.mp hk'
      exact ⟨c, ho⟩
  realtime k₁ o₁ k₂ c' hsub hk₂ := by
    rcases pair_sublist_snoc.mp hsub with hsub | hsub
    · exact h.realtime k₁ o₁ k₂ c' hsub hk₂
    · cases hsub.2

/-- A call that changes nothing is answered from the state in between. -/
theorem Linearizes.insert {before after : List (K × C)} (h : M.Linearizes s history (before ++ after))
    {k : K} {c : C} {o : O} (hcalled : Happening.call k c ∈ history)
    (hnew : k ∉ (before ++ after).map Prod.fst)
    (hpure : M.step (M.run s (before.map Prod.snd)).1 c = ((M.run s (before.map Prod.snd)).1, o))
    (hahead : ∀ k' o' c', [Happening.answer k' o', .call k c'].Sublist history →
      k' ∈ before.map Prod.fst) :
    M.Linearizes s (history ++ [.answer k o]) (before ++ (k, c) :: after) := by
  have hgrown : (before ++ after).Sublist (before ++ (k, c) :: after) :=
    (List.Sublist.refl before).append (List.sublist_cons_self _ _)
  have hzip : (before ++ (k, c) :: after).zip (M.run s ((before ++ (k, c) :: after).map Prod.snd)).2 =
      before.zip (M.run s (before.map Prod.snd)).2 ++
        ((k, c), o) :: after.zip (M.run (M.run s (before.map Prod.snd)).1 (after.map Prod.snd)).2 := by
    rw [zip_run_append, List.map_cons, M.run_cons, hpure, List.zip_cons_cons]
  constructor
  · have hperm : ((before ++ (k, c) :: after).map Prod.fst).Perm (k :: (before ++ after).map Prod.fst) :=
      List.perm_middle.map Prod.fst
    exact hperm.nodup_iff.mpr (List.nodup_cons.mpr ⟨hnew, h.once⟩)
  · intro p hp
    refine List.mem_append_left _ ?_
    rcases List.mem_append.mp hp with hp | hp
    · exact h.called p (List.mem_append_left _ hp)
    · rcases List.mem_cons.mp hp with rfl | hp
      · exact hcalled
      · exact h.called p (List.mem_append_right _ hp)
  · intro k' o' hk'
    rw [hzip]
    rcases List.mem_append.mp hk' with hk' | hk'
    · obtain ⟨c', hc'⟩ := h.answered k' o' hk'
      rw [zip_run_append] at hc'
      refine ⟨c', ?_⟩
      rcases List.mem_append.mp hc' with hc' | hc'
      · exact List.mem_append_left _ hc'
      · exact List.mem_append_right _ (List.mem_cons_of_mem _ hc')
    · cases List.mem_singleton.mp hk'
      exact ⟨c, List.mem_append_right _ (List.mem_cons_self ..)⟩
  · intro k₁ o₁ k₂ c' hall hk₂
    rcases pair_sublist_snoc.mp hall with hsub | hsub
    · by_cases hk : k₂ = k
      · rw [hk] at hsub ⊢
        rw [List.map_append]
        exact (List.singleton_sublist.mpr (hahead k₁ o₁ c' hsub)).append
          (List.singleton_sublist.mpr (List.mem_cons_self ..))
      · have hold : k₂ ∈ (before ++ after).map Prod.fst := by
          simp only [List.map_append, List.map_cons, List.mem_append, List.mem_cons] at hk₂ ⊢
          rcases hk₂ with hk₂ | hk₂ | hk₂
          · exact Or.inl hk₂
          · exact absurd hk₂ hk
          · exact Or.inr hk₂
        exact (h.realtime k₁ o₁ k₂ c' hsub hold).trans (hgrown.map Prod.fst)
    · cases hsub.2

/-! ### Calls that change nothing -/

section Reads

variable (read : K → Bool)

def writes (order : List (K × C)) : List (K × C) := order.filter fun p => !read p.1

/-- The order up to its `n`th write, and the reads behind it. -/
def front : ℕ → List (K × C) → List (K × C)
  | _, [] => []
  | n, p :: order =>
    if read p.1 then p :: front n order else if n = 0 then [] else p :: front (n - 1) order

theorem writes_cons_read {p : K × C} (hp : read p.1 = true) (order : List (K × C)) :
    writes read (p :: order) = writes read order :=
  List.filter_cons_of_neg (by simp [hp])

theorem writes_cons_write {p : K × C} (hp : ¬ read p.1 = true) (order : List (K × C)) :
    writes read (p :: order) = p :: writes read order :=
  List.filter_cons_of_pos (by simp [hp])

theorem front_le (n : ℕ) (order : List (K × C)) : front read n order <+: order := by
  induction order generalizing n with
  | nil => exact List.prefix_rfl
  | cons p order ih =>
    rw [front]
    split_ifs
    · exact (List.prefix_cons_inj p).mpr (ih n)
    · exact List.nil_prefix
    · exact (List.prefix_cons_inj p).mpr (ih (n - 1))

theorem writes_front (n : ℕ) (order : List (K × C)) :
    writes read (front read n order) = (writes read order).take n := by
  induction order generalizing n with
  | nil => exact List.take_nil.symm
  | cons p order ih =>
    rw [front]
    split_ifs with hp hn
    · rw [writes_cons_read read hp, writes_cons_read read hp, ih]
    · rw [hn, List.take_zero]
      rfl
    · obtain ⟨m, rfl⟩ := Nat.exists_eq_succ_of_ne_zero hn
      rw [writes_cons_write read hp, writes_cons_write read hp, List.take_succ_cons, ih]
      rfl

theorem front_of_le {n : ℕ} {order : List (K × C)} (h : (writes read order).length ≤ n) :
    front read n order = order := by
  induction order generalizing n with
  | nil => rfl
  | cons p order ih =>
    rw [front]
    split_ifs with hp hn
    · rw [writes_cons_read read hp] at h
      rw [ih h]
    · rw [writes_cons_write read hp, List.length_cons] at h
      omega
    · rw [writes_cons_write read hp, List.length_cons] at h
      rw [ih (by omega)]

theorem front_mono {m n : ℕ} (h : m ≤ n) (order : List (K × C)) :
    front read m order <+: front read n order := by
  induction order generalizing m n with
  | nil => exact List.prefix_rfl
  | cons p order ih =>
    rw [front, front]
    split_ifs with hp hm hn
    · exact (List.prefix_cons_inj p).mpr (ih h)
    · exact List.nil_prefix
    · exact List.nil_prefix
    · omega
    · exact (List.prefix_cons_inj p).mpr (ih (by omega))

theorem front_append (n : ℕ) (order more : List (K × C)) :
    front read n order <+: front read n (order ++ more) := by
  induction order generalizing n with
  | nil => exact List.nil_prefix
  | cons p order ih =>
    rw [List.cons_append, front, front]
    split_ifs
    · exact (List.prefix_cons_inj p).mpr (ih n)
    · exact List.prefix_rfl
    · exact (List.prefix_cons_inj p).mpr (ih (n - 1))

theorem front_insert {p : K × C} (hp : read p.1 = true) (n : ℕ) (before after : List (K × C)) :
    (front read n (before ++ after)).Sublist (front read n (before ++ p :: after)) := by
  induction before generalizing n with
  | nil =>
    rw [List.nil_append, List.nil_append, front, if_pos hp]
    exact List.sublist_cons_self _ _
  | cons q before ih =>
    rw [List.cons_append, List.cons_append, front, front]
    split_ifs
    · exact (ih n).cons_cons q
    · exact List.Sublist.refl _
    · exact (ih (n - 1)).cons_cons q

/-- Only the writes lead anywhere, and they are answered as if there were nothing else. -/
theorem run_writes {order : List (K × C)}
    (hpure : ∀ p ∈ order, read p.1 = true → ∀ s, (M.step s p.2).1 = s) (s : S) :
    (M.run s (order.map Prod.snd)).1 = (M.run s ((writes read order).map Prod.snd)).1 ∧
      ∀ e ∈ (writes read order).zip (M.run s ((writes read order).map Prod.snd)).2,
        e ∈ order.zip (M.run s (order.map Prod.snd)).2 := by
  induction order generalizing s with
  | nil => exact ⟨rfl, fun e he => he⟩
  | cons p order ih =>
    have hrest := ih fun q hq => hpure q (List.mem_cons_of_mem _ hq)
    by_cases hp : read p.1 = true
    · rw [writes_cons_read read hp, List.map_cons, M.run_cons, hpure p (List.mem_cons_self ..) hp]
      exact ⟨(hrest s).1, fun e he => List.mem_cons_of_mem _ ((hrest s).2 e he)⟩
    · rw [writes_cons_write read hp, List.map_cons, List.map_cons, M.run_cons, M.run_cons]
      refine ⟨(hrest _).1, fun e he => ?_⟩
      rw [List.zip_cons_cons] at he ⊢
      rcases List.mem_cons.mp he with rfl | he
      · exact List.mem_cons_self ..
      · exact List.mem_cons_of_mem _ ((hrest _).2 e he)

end Reads

end Machine

end GoLib
