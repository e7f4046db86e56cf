import Konsul.Graphql.Resolver
import Konsul.Lib.Pages

/-!
# Pages of the lists

`kvList` and `services` list their map anew for each page and cut the page out of the list.
A sum of offset and limit wraps around, and a slice out of range is a panic. The orders of
the maps belong to the calls.
-/

namespace Konsul

open GoLib

def IsInt (n : ℤ) : Prop := -2 ^ 63 ≤ n ∧ n < 2 ^ 63

/-- The bounds of a page are not negative, and its end does not overflow. -/
def InBounds (limit offset : Option ℤ) (total : ℕ) : Prop :=
  (∀ n, offset = some n → 0 ≤ n) ∧
    ∀ n, limit = some n → 0 ≤ n ∧ min (offset.getD 0) total + n < 2 ^ 63

/-- Where a page begins. -/
def pageStart (offset : Option ℤ) (total : ℕ) : ℤ := min (offset.getD 0) total

def pageStop (limit offset : Option ℤ) (total : ℕ) : ℤ :=
  match limit with
  | none => total
  | some n => min (wrapInt (pageStart offset total + n)) total

/-! ### One page -/

section

variable {α : Type} {items : List α}

theorem page_eq (limit offset : Option ℤ) (items : List α) :
    page limit offset items =
      if 0 ≤ pageStart offset items.length ∧
          pageStart offset items.length ≤ pageStop limit offset items.length then
        some ((items.take (pageStop limit offset items.length).toNat).drop
          (pageStart offset items.length).toNat, pageStop limit offset items.length)
      else none := by
  have hmin (a b : ℤ) : (if a > b then b else a) = min a b := by
    split_ifs <;> omega
  have hzero : min 0 (items.length : ℤ) = 0 := min_eq_left (Int.natCast_nonneg _)
  cases offset with
  | none =>
    cases limit with
    | none => simp only [page, pageStart, pageStop, Option.getD_none, hzero]
    | some n => simp only [page, pageStart, pageStop, Option.getD_none, hzero, hmin]
  | some k =>
    cases limit with
    | none =>
      simp only [page, pageStart, pageStop, Option.getD_some, hmin]
      exact if_congr Iff.rfl rfl rfl
    | some n =>
      simp only [page, pageStart, pageStop, Option.getD_some, hmin]
      exact if_congr Iff.rfl rfl rfl

theorem pageStart_le (offset : Option ℤ) (total : ℕ) : pageStart offset total ≤ total :=
  min_le_right _ _

theorem pageStop_of_fits {limit offset : Option ℤ} {total : ℕ} {n : ℤ} (hlimit : limit = some n)
    (hlow : -2 ^ 63 ≤ pageStart offset total + n) (hhigh : pageStart offset total + n < 2 ^ 63) :
    pageStop limit offset total = min (pageStart offset total + n) total := by
  rw [hlimit, pageStop, wrapInt_of_range hlow hhigh]

theorem page_ne_none_iff {limit offset : Option ℤ} (hlimit : ∀ n, limit = some n → IsInt n)
    (hoffset : ∀ n, offset = some n → IsInt n) :
    page limit offset items ≠ none ↔ InBounds limit offset items.length := by
  have hreturns : page limit offset items ≠ none ↔ 0 ≤ pageStart offset items.length ∧
      pageStart offset items.length ≤ pageStop limit offset items.length := by
    rw [page_eq]
    split_ifs with h <;> simp [h]
  have hstart : 0 ≤ pageStart offset items.length ↔ ∀ n, offset = some n → 0 ≤ n := by
    cases offset with
    | none => simp [pageStart]
    | some k => simp [pageStart]
  rw [hreturns, InBounds, hstart]
  refine and_congr_right fun hsign => ?_
  change _ ↔ ∀ n, limit = some n → 0 ≤ n ∧ pageStart offset items.length + n < 2 ^ 63
  have hlow := hstart.mpr hsign
  have hhigh : pageStart offset items.length < 2 ^ 63 := by
    cases offset with
    | none => simp [pageStart]
    | some k => exact lt_of_le_of_lt (min_le_left _ _) (hoffset k rfl).2
  have hle := pageStart_le offset items.length
  cases limit with
  | none => simpa [pageStop] using hle
  | some n =>
    obtain ⟨hn, hn'⟩ := hlimit n rfl
    have hone : (∀ n', some n = some n' → 0 ≤ n' ∧ pageStart offset items.length + n' < 2 ^ 63) ↔
        0 ≤ n ∧ pageStart offset items.length + n < 2 ^ 63 := by simp
    rw [hone]
    by_cases hfits : pageStart offset items.length + n < 2 ^ 63
    · rw [pageStop_of_fits rfl (by omega) hfits]
      omega
    · have hwrap : wrapInt (pageStart offset items.length + n) < 0 := by
        rw [← wrapInt_sub_two_pow, wrapInt_of_range (by omega) (by omega)]
        omega
      have hstop : pageStop (some n) offset items.length ≤
          wrapInt (pageStart offset items.length + n) := min_le_left _ _
      omega

/-- A page of `L` items that begins at `k`. -/
theorem page_eq_some {L k : ℕ} (hfits : min k items.length + L < 2 ^ 63) :
    page (some (L : ℤ)) (some (k : ℤ)) items =
      some ((items.take (min k items.length + L)).drop (min k items.length),
        ((min (min k items.length + L) items.length : ℕ) : ℤ)) := by
  have hstart : pageStart (some (k : ℤ)) items.length = ((min k items.length : ℕ) : ℤ) := by
    simp [pageStart]
  have hstop : pageStop (some (L : ℤ)) (some (k : ℤ)) items.length =
      ((min (min k items.length + L) items.length : ℕ) : ℤ) := by
    rw [pageStop_of_fits rfl (by rw [hstart]; omega) (by rw [hstart]; omega), hstart]
    omega
  rw [page_eq, hstart, hstop, if_pos (by omega), Int.toNat_natCast, Int.toNat_natCast,
    ← List.take_take, List.take_length]

theorem page_map {β : Type} (f : α → β) (limit offset : Option ℤ) (items : List α) :
    page limit offset (items.map f) =
      (page limit offset items).map fun p => (p.1.map f, p.2) := by
  rw [page_eq, page_eq, List.length_map]
  split_ifs with h
  · rw [Option.map_some, List.map_drop, List.map_take]
  · rfl

theorem subset_of_page {limit offset : Option ℤ} {p : List α × ℤ}
    (h : page limit offset items = some p) : p.1 ⊆ items := by
  rw [page_eq] at h
  split_ifs at h
  cases h
  exact fun _ hx => List.mem_of_mem_take (List.mem_of_mem_drop hx)

/-! ### The pages of a list -/

theorem page_pageOf {L k : ℕ} (hL : 0 < L) (hk : k < pageCount items.length L)
    (hfits : k * L + L < 2 ^ 63) :
    ∃ stop : ℤ, page (some (L : ℤ)) (some ((k * L : ℕ) : ℤ)) items = some (pageOf L k items, stop) ∧
      (stop < items.length ↔ k + 1 < pageCount items.length L) := by
  have hbegin : k * L ≤ items.length := by
    cases k with
    | zero => rw [Nat.zero_mul]; exact Nat.zero_le _
    | succ j => exact ((succ_lt_pageCount hL).mp hk).le
  refine ⟨((min (k * L + L) items.length : ℕ) : ℤ), ?_, ?_⟩
  · rw [page_eq_some (by rw [min_eq_left hbegin]; exact hfits), min_eq_left hbegin,
      List.drop_take, Nat.add_sub_cancel_left, pageOf]
  · rw [succ_lt_pageCount hL, Nat.succ_mul]
    omega

/-- Pages that are all returned end within the range of an `int`. -/
theorem fits_of_pages {L total : ℕ} {lists : ℕ → List α} (hL : 0 < L) (hL' : L < 2 ^ 63)
    (hlength : ∀ k, (lists k).length = total)
    (h : ∀ k < pageCount total L,
      page (some (L : ℤ)) (some ((k * L : ℕ) : ℤ)) (lists k) ≠ none) :
    pageCount total L * L < 2 ^ 63 := by
  have hall : ∀ k, k < pageCount total L → k * L + L < 2 ^ 63 := by
    intro k
    induction k with
    | zero => omega
    | succ k ih =>
      intro hk
      have hint := ih (by omega)
      have hbegin := (succ_lt_pageCount hL).mp hk
      rw [← Nat.succ_mul] at hint
      have hbounds := (page_ne_none_iff (fun n hn => ?_) fun n hn => ?_).mp (h (k + 1) hk)
      · have hend := (hbounds.2 _ rfl).2
        rw [hlength, Option.getD_some] at hend
        simp only [Nat.succ_eq_add_one] at hend hint
        omega
      · cases hn
        exact ⟨by omega, by omega⟩
      · cases hn
        exact ⟨by omega, by simp only [Nat.succ_eq_add_one] at hint; omega⟩
  obtain ⟨k, hk⟩ : ∃ k, pageCount total L = k + 1 :=
    ⟨pageCount total L - 1, by have hpos := pageCount_pos total L; omega⟩
  rw [hk, Nat.succ_mul]
  exact hall k (by omega)

theorem mul_add_lt {L total k : ℕ} (h : pageCount total L * L < 2 ^ 63)
    (hk : k < pageCount total L) : k * L + L < 2 ^ 63 := by
  rw [← Nat.succ_mul]
  exact (Nat.mul_le_mul_right L hk).trans_lt h

end

/-! ### The resolvers on a store -/

section

variable (data : GoMap GoString KVEntry) (t : ServiceTable)

/-- What a key-value store answers that nobody changes. -/
def kvAnswers (range : data.Order) (other : (c : StoreCall) → c.Answer) :
    (c : StoreCall) → c.Answer
  | .kvList => range.list.map Sigma.fst
  | .kvGet key => (data.lookup key).map KVEntry.value
  | c => other c

def kvListOn (range : data.Order) (other : (c : StoreCall) → c.Answer) (keyPrefix : GoString)
    (limit offset : Option ℤ) : FieldResult :=
  ((Resolver.kvList keyPrefix limit offset).run
    (fun (_ : Unit) c => ((), kvAnswers data range other c)) ()).2

def servicesOn (range : t.data.Order) (other : (c : StoreCall) → c.Answer)
    (limit offset : Option ℤ) : FieldResult :=
  ((Resolver.services limit offset).run (fun (_ : Unit) c => ((), t.listing range other c)) ()).2

/-- The entries of the keys with a prefix. -/
def withPrefix (keyPrefix : GoString) : Multiset (Σ _ : GoString, KVEntry) :=
  data.entries.filter fun e => hasPrefix e.1 keyPrefix = true

variable {data}

def pairOf (e : Σ _ : GoString, KVEntry) : KVPair := ⟨e.1, e.2.value⟩

/-- The pairs with a prefix, in the order of a listing. -/
def pairsOf (range : data.Order) (keyPrefix : GoString) : List KVPair :=
  (range.list.filter fun e => hasPrefix e.1 keyPrefix).map pairOf

variable {t}

theorem kvAnswers_kvList (range : data.Order) (other : (c : StoreCall) → c.Answer) :
    kvAnswers data range other .kvList = range.list.map Sigma.fst := rfl

theorem getItems_run (range : data.Order) (other : (c : StoreCall) → c.Answer)
    (items : List KVPair) {entries : List (Σ _ : GoString, KVEntry)} (h : entries ⊆ range.list) :
    (Resolver.getItems items (entries.map Sigma.fst)).run
        (fun (_ : Unit) c => ((), kvAnswers data range other c)) () =
      ((), items ++ entries.map pairOf) := by
  induction entries generalizing items with
  | nil =>
    rw [List.map_nil, List.map_nil, List.append_nil]
    rfl
  | cons e entries ih =>
    obtain ⟨he, hrest⟩ := List.cons_subset.mp h
    have hlookup : data.lookup e.1 = some e.2 := (range.mem_list_iff _ _).mp he
    rw [List.map_cons, Resolver.getItems, Program.run_perform_bind]
    dsimp only [kvAnswers]
    rw [hlookup]
    refine (ih (items ++ [pairOf e]) hrest).trans ?_
    rw [List.append_assoc]
    rfl

theorem kvListOn_eq (range : data.Order) (other : (c : StoreCall) → c.Answer)
    (keyPrefix : GoString) (limit offset : Option ℤ) :
    kvListOn data range other keyPrefix limit offset =
      (page limit offset (pairsOf range keyPrefix)).elim (.error internalSystemError)
        fun p => .ok (.keyList p.1 (pairsOf range keyPrefix).length
          (p.2 < ((pairsOf range keyPrefix).length : ℤ))) := by
  rw [kvListOn, Resolver.kvList, Program.run_perform_bind]
  dsimp only [kvAnswers_kvList]
  have hkeys : (range.list.map Sigma.fst).filter (fun key => hasPrefix key keyPrefix) =
      (range.list.filter fun e => hasPrefix e.1 keyPrefix).map Sigma.fst := by
    rw [List.filter_map]
    rfl
  rw [hkeys, page_map, pairsOf, page_map, List.length_map, List.length_map]
  cases hpage : page limit offset (range.list.filter fun e => hasPrefix e.1 keyPrefix) with
  | none => rfl
  | some p =>
    have hsub := List.Subset.trans (subset_of_page hpage) (List.filter_subset_self _)
    dsimp only [Option.map_some, Option.elim_some]
    rw [Program.run_bind, getItems_run range other [] hsub]
    rfl

theorem servicesOn_eq (range : t.data.Order) (other : (c : StoreCall) → c.Answer)
    (limit offset : Option ℤ) :
    servicesOn t range other limit offset =
      (page limit offset (t.listAll range)).elim (.error internalSystemError)
        fun p => .ok (.services p.1) := by
  rw [servicesOn, Resolver.services, Program.run_perform_bind]
  dsimp only [ServiceTable.listing]
  cases page limit offset (t.listAll range) <;> rfl

theorem coe_filter_eq (range : data.Order) (keyPrefix : GoString) :
    ((range.list.filter fun e => hasPrefix e.1 keyPrefix : List (Σ _ : GoString, KVEntry)) :
      Multiset (Σ _ : GoString, KVEntry)) = withPrefix data keyPrefix := by
  rw [withPrefix, ← range.entries_eq, Multiset.filter_coe]
  simp only [Bool.decide_eq_true]

theorem coe_pairsOf (range : data.Order) (keyPrefix : GoString) :
    (pairsOf range keyPrefix : Multiset KVPair) = (withPrefix data keyPrefix).map pairOf := by
  rw [pairsOf, ← Multiset.map_coe, coe_filter_eq]

/-- Every order of the pairs is that of a listing. -/
theorem exists_pairsOf {keyPrefix : GoString} {l : List KVPair}
    (h : (l : Multiset KVPair) = (withPrefix data keyPrefix).map pairOf) :
    ∃ range : data.Order, pairsOf range keyPrefix = l := by
  obtain ⟨entries, hentries, rfl⟩ := exists_map_eq h
  obtain ⟨range⟩ : Nonempty data.Order := inferInstance
  have hall : ∀ e ∈ entries, hasPrefix e.1 keyPrefix = true := by
    intro e he
    rw [← Multiset.mem_coe, hentries] at he
    exact (Multiset.mem_filter.mp he).2
  have hnone : (range.list.filter fun e => ! hasPrefix e.1 keyPrefix).filter
      (fun e => hasPrefix e.1 keyPrefix) = [] := by
    rw [List.filter_filter]
    simp
  refine ⟨⟨entries ++ range.list.filter fun e => ! hasPrefix e.1 keyPrefix, ?_⟩, ?_⟩
  · rw [← Multiset.coe_add, hentries, ← coe_filter_eq range, ← range.entries_eq, Multiset.coe_add]
    exact Multiset.coe_eq_coe.mpr (List.filter_append_perm _ _)
  · rw [pairsOf, List.filter_append, List.filter_eq_self.mpr hall, hnone, List.append_nil]

theorem exists_listAll {l : List ServiceEntry}
    (h : (l : Multiset ServiceEntry) = t.data.entries.map Sigma.snd) :
    ∃ range : t.data.Order, t.listAll range = l := by
  obtain ⟨entries, hentries, rfl⟩ := exists_map_eq h
  exact ⟨⟨entries, hentries⟩, rfl⟩

theorem card_withPrefix (range : data.Order) (keyPrefix : GoString) :
    (pairsOf range keyPrefix).length = (withPrefix data keyPrefix).card := by
  rw [← Multiset.coe_card, coe_pairsOf, Multiset.card_map]

theorem nodup_pairs (keyPrefix : GoString) :
    ((withPrefix data keyPrefix).map pairOf).Nodup := by
  obtain ⟨range⟩ : Nonempty data.Order := inferInstance
  have hkeys : ((pairsOf range keyPrefix).map KVPair.key).Nodup := by
    rw [pairsOf, List.map_map]
    exact range.nodup_keys.sublist (List.filter_sublist.map _)
  rw [← coe_pairsOf range]
  exact Multiset.coe_nodup.mpr (List.Nodup.of_map _ hkeys)

end

/-! ### Pages that partition -/

/-- The pages of `L` pairs, each listed in an order of its own, hold the pairs of the prefix once
each, and those before the last say that there are more. -/
def KVPagesPartition (data : GoMap GoString KVEntry) (keyPrefix : GoString) (L : ℕ) : Prop :=
  ∀ (range : ℕ → data.Order) (other : (c : StoreCall) → c.Answer),
    ∃ items : ℕ → List KVPair,
      (∀ k < pageCount (withPrefix data keyPrefix).card L,
        kvListOn data (range k) other keyPrefix (some (L : ℤ)) (some ((k * L : ℕ) : ℤ)) =
          .ok (.keyList (items k) (withPrefix data keyPrefix).card
            (k + 1 < pageCount (withPrefix data keyPrefix).card L))) ∧
      ((List.range (pageCount (withPrefix data keyPrefix).card L)).flatMap items :
        Multiset KVPair) = (withPrefix data keyPrefix).map pairOf

/-- The pages of `L` services, each listed in an order of its own, hold the services once each. -/
def ServicePagesPartition (t : ServiceTable) (L : ℕ) : Prop :=
  ∀ (range : ℕ → t.data.Order) (other : (c : StoreCall) → c.Answer),
    ∃ entries : ℕ → List ServiceEntry,
      (∀ k < pageCount t.data.entries.card L,
        servicesOn t (range k) other (some (L : ℤ)) (some ((k * L : ℕ) : ℤ)) =
          .ok (.services (entries k))) ∧
      ((List.range (pageCount t.data.entries.card L)).flatMap entries : Multiset ServiceEntry) =
        t.data.entries.map Sigma.snd

theorem flatMap_eq_pagesOf {α : Type} {L n : ℕ} {lists items : ℕ → List α}
    (h : ∀ k < n, items k = pageOf L k (lists k)) :
    (List.range n).flatMap items = pagesOf L n lists :=
  List.flatMap_congr fun k hk => h k (List.mem_range.mp hk)

theorem kvListOn_page {data : GoMap GoString KVEntry} {keyPrefix : GoString} {L k : ℕ} (hL : 0 < L)
    (hk : k < pageCount (withPrefix data keyPrefix).card L) (hfits : k * L + L < 2 ^ 63)
    (range : data.Order) (other : (c : StoreCall) → c.Answer) :
    kvListOn data range other keyPrefix (some (L : ℤ)) (some ((k * L : ℕ) : ℤ)) =
      .ok (.keyList (pageOf L k (pairsOf range keyPrefix)) (withPrefix data keyPrefix).card
        (k + 1 < pageCount (withPrefix data keyPrefix).card L)) := by
  rw [← card_withPrefix range] at hk ⊢
  obtain ⟨stop, hpage, hmore⟩ := page_pageOf hL hk hfits
  rw [kvListOn_eq, hpage, Option.elim_some, decide_eq_decide.mpr hmore]

theorem servicesOn_page {t : ServiceTable} {L k : ℕ} (hL : 0 < L)
    (hk : k < pageCount t.data.entries.card L) (hfits : k * L + L < 2 ^ 63)
    (range : t.data.Order) (other : (c : StoreCall) → c.Answer) :
    servicesOn t range other (some (L : ℤ)) (some ((k * L : ℕ) : ℤ)) =
      .ok (.services (pageOf L k (t.listAll range))) := by
  rw [← ServiceTable.card_listAll range] at hk
  obtain ⟨stop, hpage, -⟩ := page_pageOf hL hk hfits
  rw [servicesOn_eq, hpage, Option.elim_some]

theorem kvListOn_ne_error_iff (data : GoMap GoString KVEntry) (range : data.Order)
    (other : (c : StoreCall) → c.Answer) (keyPrefix : GoString) (limit offset : Option ℤ) :
    kvListOn data range other keyPrefix limit offset ≠ .error internalSystemError ↔
      page limit offset (pairsOf range keyPrefix) ≠ none := by
  rw [kvListOn_eq]
  cases page limit offset (pairsOf range keyPrefix) <;> simp

theorem servicesOn_ne_error_iff (t : ServiceTable) (range : t.data.Order)
    (other : (c : StoreCall) → c.Answer) (limit offset : Option ℤ) :
    servicesOn t range other limit offset ≠ .error internalSystemError ↔
      page limit offset (t.listAll range) ≠ none := by
  rw [servicesOn_eq]
  cases page limit offset (t.listAll range) <;> simp

instance : Nonempty ((c : StoreCall) → c.Answer) := ⟨fun c => c.nonempty_answer.some⟩

/-- Pages that are returned where they fit partition the items when they all fit and all lists of
the items would be partitioned. -/
theorem returned_partition_iff {α R O : Type} [Nonempty O] {L : ℕ} (hL : 0 < L) (hL' : L < 2 ^ 63)
    {items : Multiset α} {list : R → List α} (hlist : ∀ r, (list r : Multiset α) = items)
    (hall : ∀ l : List α, (l : Multiset α) = items → ∃ r, list r = l)
    (Returned : O → R → ℕ → List α → Prop)
    (hsome : ∀ o r k p, Returned o r k p →
      page (some (L : ℤ)) (some ((k * L : ℕ) : ℤ)) (list r) ≠ none)
    (hpage : ∀ o r k, k < pageCount items.card L → k * L + L < 2 ^ 63 →
      ∀ p, Returned o r k p ↔ p = pageOf L k (list r)) :
    (∀ (range : ℕ → R) (o : O), ∃ pages : ℕ → List α,
      (∀ k < pageCount items.card L, Returned o (range k) k (pages k)) ∧
        ((List.range (pageCount items.card L)).flatMap pages : Multiset α) = items) ↔
      pageCount items.card L * L < 2 ^ 63 ∧ PagesPartition items L := by
  constructor
  · intro h
    obtain ⟨o⟩ : Nonempty O := inferInstance
    have hfits : pageCount items.card L * L < 2 ^ 63 := by
      obtain ⟨l, hl⟩ := Quot.exists_rep items
      obtain ⟨r, -⟩ := hall l hl
      obtain ⟨pages, hpages, -⟩ := h (fun _ => r) o
      have hlength : (list r).length = items.card := by rw [← hlist r, Multiset.coe_card]
      exact fits_of_pages hL hL' (fun _ => hlength) fun k hk =>
        hsome o r k (pages k) (hpages k hk)
    refine ⟨hfits, fun lists hlists => ?_⟩
    choose range hrange using fun k => hall (lists k) (hlists k)
    obtain ⟨pages, hpages, hpartition⟩ := h range o
    have heq (k : ℕ) (hk : k < pageCount items.card L) : pages k = pageOf L k (lists k) := by
      rw [(hpage o (range k) k hk (mul_add_lt hfits hk) (pages k)).mp (hpages k hk), hrange k]
    rw [← flatMap_eq_pagesOf heq]
    exact hpartition
  · rintro ⟨hfits, h⟩ range o
    refine ⟨fun k => pageOf L k (list (range k)), fun k hk => ?_, h _ fun k => hlist (range k)⟩
    exact (hpage o (range k) k hk (mul_add_lt hfits hk) _).mpr rfl

theorem kvPagesPartition_iff_pages (data : GoMap GoString KVEntry) (keyPrefix : GoString) {L : ℕ}
    (hL : 0 < L) (hL' : L < 2 ^ 63) :
    KVPagesPartition data keyPrefix L ↔
      pageCount (withPrefix data keyPrefix).card L * L < 2 ^ 63 ∧
        PagesPartition ((withPrefix data keyPrefix).map pairOf) L := by
  have hpages := returned_partition_iff hL hL' (fun range => coe_pairsOf range keyPrefix)
    (fun _ => exists_pairsOf)
    (fun other range k p =>
      kvListOn data range other keyPrefix (some (L : ℤ)) (some ((k * L : ℕ) : ℤ)) =
        .ok (.keyList p (withPrefix data keyPrefix).card
          (k + 1 < pageCount (withPrefix data keyPrefix).card L)))
    (fun other range k p hp => by
      rw [← kvListOn_ne_error_iff data range other, hp]
      simp)
    (fun other range k hk hfits p => by
      rw [Multiset.card_map] at hk
      rw [kvListOn_page hL hk hfits]
      simp [eq_comm])
  rw [Multiset.card_map] at hpages
  exact hpages

theorem servicePagesPartition_iff_pages (t : ServiceTable) {L : ℕ} (hL : 0 < L)
    (hL' : L < 2 ^ 63) :
    ServicePagesPartition t L ↔
      pageCount t.data.entries.card L * L < 2 ^ 63 ∧
        PagesPartition (t.data.entries.map Sigma.snd) L := by
  have hpages := returned_partition_iff hL hL' (fun range : t.data.Order => ServiceTable.coe_listAll range)
    (fun _ => exists_listAll)
    (fun other range k p =>
      servicesOn t range other (some (L : ℤ)) (some ((k * L : ℕ) : ℤ)) = .ok (.services p))
    (fun other range k p hp => by
      rw [← servicesOn_ne_error_iff t range other, hp]
      simp)
    (fun other range k hk hfits p => by
      rw [Multiset.card_map] at hk
      rw [servicesOn_page hL hk hfits]
      simp [eq_comm])
  rw [Multiset.card_map] at hpages
  exact hpages

theorem pageCount_mul_lt {total L : ℕ} (hL : 0 < L) (hL' : L < 2 ^ 63) (hfew : total ≤ L) :
    pageCount total L * L < 2 ^ 63 := by
  rw [(pageCount_eq_one hL).mpr hfew, Nat.one_mul]
  exact hL'

theorem kvPagesPartition_iff (data : GoMap GoString KVEntry) (keyPrefix : GoString) {L : ℕ}
    (hL : 0 < L) (hL' : L < 2 ^ 63) :
    KVPagesPartition data keyPrefix L ↔ (withPrefix data keyPrefix).card ≤ L := by
  rw [kvPagesPartition_iff_pages data keyPrefix hL hL',
    pagesPartition_iff_of_nodup hL (nodup_pairs keyPrefix), Multiset.card_map]
  exact and_iff_right_of_imp (pageCount_mul_lt hL hL')

/-- One entry under every name: all listings are the same. -/
def SameEntries (t : ServiceTable) : Prop :=
  ∀ name name' e e', t.data.lookup name = some e → t.data.lookup name' = some e' → e = e'

theorem servicePagesPartition_iff (t : ServiceTable) {L : ℕ} (hL : 0 < L) (hL' : L < 2 ^ 63) :
    ServicePagesPartition t L ↔ t.data.entries.card ≤ L ∨
      SameEntries t ∧ pageCount t.data.entries.card L * L < 2 ^ 63 := by
  have hmem (e : ServiceEntry) :
      e ∈ t.data.entries.map Sigma.snd ↔ ∃ name, t.data.lookup name = some e := by
    obtain ⟨range⟩ : Nonempty t.data.Order := inferInstance
    rw [← ServiceTable.coe_listAll range, Multiset.mem_coe, ServiceTable.mem_listAll_iff]
  have hsame : (∀ x ∈ t.data.entries.map Sigma.snd, ∀ y ∈ t.data.entries.map Sigma.snd, x = y) ↔
      SameEntries t := by
    simp only [hmem, SameEntries]
    constructor
    · intro h name name' e e' he he'
      exact h e ⟨name, he⟩ e' ⟨name', he'⟩
    · intro h e he e' he'
      obtain ⟨name, he⟩ := he
      obtain ⟨name', he'⟩ := he'
      exact h name name' e e' he he'
  rw [servicePagesPartition_iff_pages t hL hL', pagesPartition_iff hL, Multiset.card_map, hsame,
    and_or_left, and_iff_right_of_imp (pageCount_mul_lt hL hL'), and_comm]

/-- Offsets and limits are returned for just when they are in bounds, and pages listed one by one
partition the list just when there is one page. -/
theorem pages_returned_and_partition_iff (data : GoMap GoString KVEntry) (t : ServiceTable) :
    (∀ (limit offset : Option ℤ), (∀ n, limit = some n → IsInt n) →
      (∀ n, offset = some n → IsInt n) → ∀ other : (c : StoreCall) → c.Answer,
      (∀ (range : data.Order) keyPrefix,
        kvListOn data range other keyPrefix limit offset ≠ .error internalSystemError ↔
          InBounds limit offset (withPrefix data keyPrefix).card) ∧
      ∀ range : t.data.Order,
        servicesOn t range other limit offset ≠ .error internalSystemError ↔
          InBounds limit offset t.data.entries.card) ∧
    ∀ L : ℕ, 0 < L → L < 2 ^ 63 →
      (∀ keyPrefix, KVPagesPartition data keyPrefix L ↔ (withPrefix data keyPrefix).card ≤ L) ∧
      (ServicePagesPartition t L ↔ t.data.entries.card ≤ L ∨
        SameEntries t ∧ pageCount t.data.entries.card L * L < 2 ^ 63) := by
  refine ⟨fun limit offset hlimit hoffset other => ⟨fun range keyPrefix => ?_, fun range => ?_⟩,
    fun L hL hL' => ⟨fun keyPrefix => ?_, ?_⟩⟩
  · rw [kvListOn_ne_error_iff, page_ne_none_iff hlimit hoffset, card_withPrefix]
  · rw [servicesOn_ne_error_iff, page_ne_none_iff hlimit hoffset, ServiceTable.card_listAll]
  · exact kvPagesPartition_iff data keyPrefix hL hL'
  · exact servicePagesPartition_iff t hL hL'

def entryOne : KVEntry := ⟨str "1", 1, 1, 0⟩

def twoKeys : GoMap GoString KVEntry :=
  ((∅ : GoMap GoString KVEntry).insert (str "a") entryOne).insert (str "b") entryOne

def aFirst : twoKeys.Order :=
  ⟨[⟨str "a", entryOne⟩, ⟨str "b", entryOne⟩], by decide +kernel⟩

def bFirst : twoKeys.Order :=
  ⟨[⟨str "b", entryOne⟩, ⟨str "a", entryOne⟩], by decide +kernel⟩

def noServices : ServiceTable := ⟨∅, ∅, ∅, 0⟩

theorem pages_of_twoKeys :
    (∀ other : (c : StoreCall) → c.Answer,
      kvListOn twoKeys aFirst other [] (some 1) (some 1) ≠ .error internalSystemError) ∧
    KVPagesPartition twoKeys [] 2 ∧ ¬ KVPagesPartition twoKeys [] 1 := by
  have hreturned := (pages_returned_and_partition_iff twoKeys noServices).1
  have hpartition := (pages_returned_and_partition_iff twoKeys noServices).2
  refine ⟨fun other => ?_, ?_, ?_⟩
  · refine ((hreturned (some 1) (some 1) (fun n hn => ?_) (fun n hn => ?_) other).1 aFirst []).mpr ?_
    · cases hn
      exact ⟨by decide, by decide⟩
    · cases hn
      exact ⟨by decide, by decide⟩
    · refine ⟨fun n hn => ?_, fun n hn => ?_⟩
      · cases hn
        decide
      · cases hn
        exact ⟨by decide, by decide +kernel⟩
  · exact ((hpartition 2 (by decide) (by decide)).1 []).mpr (by decide +kernel)
  · exact ((hpartition 1 (by decide) (by decide)).1 []).not.mpr (by decide +kernel)

/-- A negative offset is a slice out of range; two pages of one key each may both hold the same
key, and miss the other. -/
theorem pages_panic_and_repeat :
    (∀ other : (c : StoreCall) → c.Answer,
      servicesOn noServices .nil other none (some (-1)) = .error internalSystemError) ∧
    ¬ KVPagesPartition twoKeys [] 1 ∧
    ∀ other : (c : StoreCall) → c.Answer,
      kvListOn twoKeys aFirst other [] (some 1) (some 0) =
        .ok (.keyList [⟨str "a", str "1"⟩] 2 true) ∧
      kvListOn twoKeys bFirst other [] (some 1) (some 1) =
        .ok (.keyList [⟨str "a", str "1"⟩] 2 false) := by
  have hmany : ¬ (withPrefix twoKeys []).card ≤ 1 := by decide +kernel
  have hrepeat := (kvPagesPartition_iff twoKeys [] Nat.zero_lt_one (by decide)).not.mpr hmany
  exact ⟨fun other => rfl, hrepeat, fun other => ⟨rfl, rfl⟩⟩

end Konsul
