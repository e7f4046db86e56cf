import Konsul.Lib.Machine
import Mathlib.Algebra.Order.Field.Basic
import Mathlib.Tactic.Linarith
import Mathlib.Tactic.Ring

/-!
# Token buckets filled lazily

A bucket of capacity `b` gains `r` tokens per unit of time, but only when it is
asked for one: the tokens it holds are those of the last request, and the time
since then is paid out before the next. `spent_le` is the potential argument: what
a run grants up to a time is covered by the tokens at its start and by what has
flowed in since.
-/

namespace GoLib

/-- The tokens left after the last request, and its time. -/
structure TokenBucket (K : Type*) where
  tokens : K
  last : K

namespace TokenBucket

/-- How many requests of a run are granted with a time in `w`. -/
def granted {K : Type*} (w : K → Bool) (ts : List K) (answers : List Bool) : ℕ :=
  (ts.zip answers).countP fun a => w a.1 && a.2

section

variable {K : Type*} (w : K → Bool)

@[simp] theorem granted_nil : granted w [] [] = 0 := rfl

theorem granted_cons (t : K) (ts : List K) (a : Bool) (as : List Bool) :
    granted w (t :: ts) (a :: as) = granted w ts as + if w t && a then 1 else 0 := by
  simp only [granted, List.zip_cons_cons, List.countP_cons]

/-- Nothing is granted in a window no request falls in. -/
theorem granted_eq_zero {ts : List K} (h : ∀ t ∈ ts, w t = false) (as : List Bool) :
    granted w ts as = 0 := by
  refine List.countP_eq_zero.mpr fun a ha => ?_
  rw [h a.1 (List.of_mem_zip ha).1]
  simp

end

/-- Requests in the order of their times, none before `t`. -/
def From {K : Type*} [LinearOrder K] (t : K) (ts : List K) : Prop :=
  (t :: ts).Pairwise (· ≤ ·)

namespace From

variable {K : Type*} [LinearOrder K] {t u : K} {ts : List K}

theorem head_le (h : From t (u :: ts)) : t ≤ u :=
  (List.pairwise_cons.mp h).1 u (List.mem_cons_self ..)

theorem tail (h : From t (u :: ts)) : From u ts := (List.pairwise_cons.mp h).2

theorem le_mem (h : From t ts) (hu : u ∈ ts) : t ≤ u := (List.pairwise_cons.mp h).1 u hu

theorem take (h : From t ts) (n : ℕ) : From t (ts.take n) :=
  h.sublist ((List.take_sublist n ts).cons_cons t)

end From

variable {K : Type*} [Field K] [LinearOrder K] (r b : K)

/-- What the bucket holds at `t`. -/
def level (s : TokenBucket K) (t : K) : K := min b (s.tokens + (t - s.last) * r)

/-- A request at `t`: granted when a whole token is there. -/
def take (s : TokenBucket K) (t : K) : TokenBucket K × Bool :=
  if 1 ≤ s.level r b t then (⟨s.level r b t - 1, t⟩, true) else (⟨s.level r b t, t⟩, false)

def machine : Machine (TokenBucket K) K Bool := ⟨take r b⟩

variable {r b} {s : TokenBucket K}

theorem level_le (t : K) : s.level r b t ≤ b := min_le_left _ _

@[simp] theorem take_last (t : K) : (s.take r b t).1.last = t := by
  unfold take
  split_ifs <;> rfl

theorem take_snd (t : K) : (s.take r b t).2 = decide (1 ≤ s.level r b t) := by
  unfold take
  split_ifs with h
  · exact (decide_eq_true h).symm
  · exact (decide_eq_false h).symm

/-- A request moves at most what it is granted out of the bucket. -/
theorem take_tokens (t : K) :
    (s.take r b t).1.tokens + (if (s.take r b t).2 then 1 else 0) = s.level r b t := by
  unfold take
  split_ifs with h1 h2 <;> simp_all

variable [IsStrictOrderedRing K]

theorem level_nonneg (hr : 0 ≤ r) (hb : 0 ≤ b) (h0 : 0 ≤ s.tokens) {t : K} (ht : s.last ≤ t) :
    0 ≤ s.level r b t := by
  have hflow : 0 ≤ (t - s.last) * r := mul_nonneg (sub_nonneg.mpr ht) hr
  exact le_min hb (add_nonneg h0 hflow)

/-- A full bucket stays full. -/
theorem level_eq_of_full (hr : 0 ≤ r) {t t' : K} (htt' : t ≤ t')
    (hfull : b ≤ s.tokens + (t - s.last) * r) : s.level r b t' = b := by
  have hmore : (t - s.last) * r ≤ (t' - s.last) * r :=
    mul_le_mul_of_nonneg_right (by linarith) hr
  exact min_eq_left (by linarith)

theorem take_bounds (hr : 0 ≤ r) (hb : 0 ≤ b) (h0 : 0 ≤ s.tokens) {t : K} (ht : s.last ≤ t) :
    0 ≤ (s.take r b t).1.tokens ∧ (s.take r b t).1.tokens ≤ b := by
  have hlow := level_nonneg hr hb h0 ht
  have hhigh : s.level r b t ≤ b := level_le t
  unfold take
  split_ifs with h
  · exact ⟨sub_nonneg.mpr h, by simp only; linarith⟩
  · exact ⟨hlow, hhigh⟩

/-- Between no tokens and the capacity, after any run. -/
theorem run_bounds (hr : 0 ≤ r) (hb : 0 ≤ b) (h0 : 0 ≤ s.tokens) (hcap : s.tokens ≤ b)
    {ts : List K} (hts : From s.last ts) :
    0 ≤ ((machine r b).run s ts).1.tokens ∧ ((machine r b).run s ts).1.tokens ≤ b := by
  induction ts generalizing s with
  | nil => exact ⟨h0, hcap⟩
  | cons t ts ih =>
    have hnext := take_bounds hr hb h0 hts.head_le
    refine ih (s := (s.take r b t).1) hnext.1 hnext.2 ?_
    rw [take_last]
    exact hts.tail

/-- The potential argument: the grants up to `e` are paid for by the tokens at the
start and by what flows in until `e`. -/
theorem spent_le (hr : 0 ≤ r) (hb : 0 ≤ b) (h0 : 0 ≤ s.tokens) {ts : List K}
    (hts : From s.last ts) {e : K} (he : s.last ≤ e) {w : K → Bool}
    (hw : ∀ t, w t = true → t ≤ e) :
    (granted w ts ((machine r b).run s ts).2 : K) ≤ s.tokens + (e - s.last) * r := by
  induction ts generalizing s with
  | nil =>
    have hflow : 0 ≤ (e - s.last) * r := mul_nonneg (sub_nonneg.mpr he) hr
    simp only [Machine.run_nil, granted_nil, Nat.cast_zero]
    linarith
  | cons t ts ih =>
    have hflow : 0 ≤ (e - s.last) * r := mul_nonneg (sub_nonneg.mpr he) hr
    have hlevel : s.level r b t ≤ s.tokens + (t - s.last) * r := min_le_right _ _
    have hpaid := take_tokens (r := r) (b := b) (s := s) t
    rcases le_or_gt t e with hte | hte
    · have hnext := take_bounds hr hb h0 hts.head_le
      have hrest := ih (s := (s.take r b t).1) hnext.1
        (by rw [take_last]; exact hts.tail) (by rw [take_last]; exact hte)
      rw [take_last] at hrest
      have hthis : ((if w t && (s.take r b t).2 then 1 else 0 : ℕ) : K) ≤
          if (s.take r b t).2 then 1 else 0 := by
        cases w t <;> cases (s.take r b t).2 <;> simp
      have hsplit : (e - s.last) * r = (t - s.last) * r + (e - t) * r := by ring
      rw [Machine.run_cons, granted_cons, Nat.cast_add]
      change (granted w ts ((machine r b).run (s.take r b t).1 ts).2 : K) + _ ≤ _
      change _ + ((if w t && (s.take r b t).2 then 1 else 0 : ℕ) : K) ≤ _
      linarith
    · -- the request and all later ones are past `e`
      have hnone : ∀ u ∈ t :: ts, w u = false := by
        intro u hu
        have htu : t ≤ u := by
          rcases List.mem_cons.mp hu with rfl | hu
          · exact le_rfl
          · exact hts.tail.le_mem hu
        by_contra hwu
        have := hw u (by simpa using hwu)
        linarith
      rw [granted_eq_zero w hnone, Nat.cast_zero]
      linarith

/-- In a closed window no more is granted than the capacity and what flows in
while the window is open. -/
theorem window_le (hr : 0 ≤ r) (hb : 0 ≤ b) (h0 : 0 ≤ s.tokens) {ts : List K}
    (hts : From s.last ts) (start : K) {T : K} (hT : 0 ≤ T) :
    (granted (fun t => decide (start ≤ t ∧ t ≤ start + T)) ts ((machine r b).run s ts).2 : K) ≤
      b + r * T := by
  have hroom : 0 ≤ r * T := mul_nonneg hr hT
  induction ts generalizing s with
  | nil =>
    simp only [Machine.run_nil, granted_nil, Nat.cast_zero]
    linarith
  | cons t ts ih =>
    have hnext := take_bounds hr hb h0 hts.head_le
    have hfrom : From (s.take r b t).1.last ts := by rw [take_last]; exact hts.tail
    rw [Machine.run_cons, granted_cons, Nat.cast_add]
    change (granted _ ts ((machine r b).run (s.take r b t).1 ts).2 : K) + _ ≤ _
    by_cases hin : start ≤ t ∧ t ≤ start + T
    · -- the first request of the window finds at most a full bucket
      have hrest := spent_le hr hb hnext.1 hfrom (e := start + T)
        (by rw [take_last]; exact hin.2) (w := fun t => decide (start ≤ t ∧ t ≤ start + T))
        (fun u hu => (of_decide_eq_true hu).2)
      rw [take_last] at hrest
      have hpaid := take_tokens (r := r) (b := b) (s := s) t
      have hfull : s.level r b t ≤ b := level_le t
      have hopen : (start + T - t) * r ≤ r * T := by
        rw [mul_comm r T]
        exact mul_le_mul_of_nonneg_right (by linarith [hin.1]) hr
      have hthis : ((if decide (start ≤ t ∧ t ≤ start + T) && (s.take r b t).2 then 1 else 0 : ℕ) : K) =
          if (s.take r b t).2 then 1 else 0 := by
        rw [decide_eq_true hin, Bool.true_and]
        cases (s.take r b t).2 <;> simp
      change _ + ((if decide (start ≤ t ∧ t ≤ start + T) && (s.take r b t).2 then 1 else 0 : ℕ) : K) ≤ _
      rw [hthis]
      linarith
    · have hout := ih hnext.1 hfrom
      rw [decide_eq_false hin, Bool.false_and]
      simpa using hout

/-- Requests at least as far apart as one token takes to flow in are all granted. -/
theorem all_granted (hr : 0 < r) (hb : 1 ≤ b) (h0 : 0 ≤ s.tokens) {ts : List K}
    (hfirst : ∀ t ∈ ts.head?, 1 ≤ s.level r b t)
    (hgaps : ts.IsChain fun t u => t + 1 / r ≤ u) :
    ∀ a ∈ ((machine r b).run s ts).2, a = true := by
  induction ts generalizing s with
  | nil => exact fun a ha => absurd ha List.not_mem_nil
  | cons t ts ih =>
    have hlevel : 1 ≤ s.level r b t := hfirst t rfl
    have hgrant : (s.take r b t).2 = true := by rw [take_snd, decide_eq_true hlevel]
    have hleft : 0 ≤ (s.take r b t).1.tokens := by
      have := take_tokens (r := r) (b := b) (s := s) t
      rw [hgrant] at this
      simp only [ite_true] at this
      linarith
    have hnext : ∀ u ∈ ts.head?, 1 ≤ (s.take r b t).1.level r b u := by
      intro u hu
      obtain ⟨us, rfl⟩ : ∃ us, ts = u :: us := by
        cases ts with
        | nil => exact absurd hu (Option.not_mem_none u)
        | cons v us => exact ⟨us, by rw [Option.mem_some.mp hu]⟩
      have hgap : t + 1 / r ≤ u := (List.isChain_cons_cons.mp hgaps).1
      have htoken : 1 ≤ (u - t) * r := by
        have := mul_le_mul_of_nonneg_right (show 1 / r ≤ u - t by linarith) hr.le
        rwa [one_div, inv_mul_cancel₀ hr.ne'] at this
      unfold level
      rw [take_last]
      exact le_min hb (by linarith)
    intro a ha
    rw [Machine.run_cons] at ha
    rcases List.mem_cons.mp ha with rfl | ha
    · exact hgrant
    · exact ih hleft hnext (List.IsChain.of_cons hgaps) a ha

/-! ### Buckets that come and go -/

/-- What a window of length `T` from `w` on has granted, and what there is for the requests to come:
both are paid for by a full bucket at the start of the window and what flows in. -/
structure Covered (r b w T clock : K) (granted : ℕ) (level : K → K) : Prop where
  early : clock < w → granted = 0
  most : (granted : K) ≤ b + r * T
  later : ∀ t, clock ≤ t → w ≤ t → t ≤ w + T → granted + level t ≤ b + r * (t - w)

variable {w T clock : K} {n : ℕ} {level : K → K}

theorem covered_start (hr : 0 ≤ r) (hb : 0 ≤ b) (hT : 0 ≤ T) (w clock : K) :
    Covered r b w T clock 0 fun _ => b where
  early _ := rfl
  most := by
    have hroom : 0 ≤ r * T := mul_nonneg hr hT
    rw [Nat.cast_zero]
    linarith
  later t _ hwt _ := by
    have hroom : 0 ≤ r * (t - w) := mul_nonneg hr (sub_nonneg.mpr hwt)
    rw [Nat.cast_zero]
    linarith

theorem Covered.mono (h : Covered r b w T clock n level) {clock' : K} (hle : clock ≤ clock')
    {level' : K → K} (hlevel : ∀ t, clock' ≤ t → level' t ≤ level t) :
    Covered r b w T clock' n level' where
  early hlt := h.early (hle.trans_lt hlt)
  most := h.most
  later t ht hwt htT := by
    have hold := h.later t (hle.trans ht) hwt htT
    have hnew := hlevel t ht
    linarith

/-- A request at `t₀`. -/
theorem Covered.take (hr : 0 ≤ r) (h : Covered r b w T clock n (s.level r b)) {t₀ : K}
    (ht₀ : clock ≤ t₀) : Covered r b w T t₀
      (n + if (s.take r b t₀).2 = true ∧ w ≤ t₀ ∧ t₀ ≤ w + T then 1 else 0)
      ((s.take r b t₀).1.level r b) := by
  have hpaid := take_tokens (r := r) (b := b) (s := s) t₀
  have hgrown (t : K) : (s.take r b t₀).1.level r b t ≤ (s.take r b t₀).1.tokens + (t - t₀) * r := by
    have hle : (s.take r b t₀).1.level r b t ≤
        (s.take r b t₀).1.tokens + (t - (s.take r b t₀).1.last) * r := min_le_right _ _
    rwa [take_last] at hle
  rcases lt_or_ge t₀ w with hbefore | hbegun
  · have hnone : n = 0 := h.early (ht₀.trans_lt hbefore)
    rw [if_neg fun hin => absurd hin.2.1 (not_le.mpr hbefore), add_zero]
    refine ⟨fun _ => hnone, h.most, fun t _ hwt _ => ?_⟩
    have hcap : (s.take r b t₀).1.level r b t ≤ b := level_le t
    have hroom : 0 ≤ r * (t - w) := mul_nonneg hr (sub_nonneg.mpr hwt)
    rw [hnone, Nat.cast_zero]
    linarith
  · rcases le_or_gt t₀ (w + T) with hopen | hpast
    · have hhere := h.later t₀ ht₀ hbegun hopen
      have hcount : ((n + if (s.take r b t₀).2 = true ∧ w ≤ t₀ ∧ t₀ ≤ w + T then 1 else 0 : ℕ) : K) =
          n + if (s.take r b t₀).2 = true then 1 else 0 := by
        simp only [hbegun, hopen, and_true, Nat.cast_add, Nat.cast_ite, Nat.cast_one, Nat.cast_zero]
      refine ⟨fun hlt => absurd hlt (not_lt.mpr hbegun), ?_, fun t ht _ _ => ?_⟩
      · rw [hcount]
        split_ifs with hgrant
        · rw [take_snd, decide_eq_true_eq] at hgrant
          have hroom : r * (t₀ - w) ≤ r * T := mul_le_mul_of_nonneg_left (by linarith) hr
          linarith
        · rw [add_zero]
          exact h.most
      · have hnext := hgrown t
        have hsplit : r * (t - w) = r * (t₀ - w) + (t - t₀) * r := by ring
        rw [hcount]
        linarith
    · rw [if_neg fun hin => absurd hin.2.2 (not_le.mpr hpast), add_zero]
      exact ⟨fun hlt => absurd hlt (not_lt.mpr hbegun), h.most, fun t ht _ htT =>
        absurd (hpast.trans_le ht) (not_lt.mpr htT)⟩

end TokenBucket

end GoLib
