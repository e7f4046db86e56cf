import Konsul.Ratelimit.Middleware

/-!
# Whom the access list treats

The type of an entry says which clients it is meant for, and the lookup of the
middleware does not see it. So an entry applies to the clients of its own type as long
as no identifier is used by both.
-/

namespace Konsul.Ratelimit

open GoLib

inductive Treatment where
  | blocked
  | bypassed
  | limited
  deriving DecidableEq

/-- What the middleware does with a client, from two readings of the clock. -/
def AccessList.treatment (a : AccessList) (c : Client) (t u : Time) : Treatment :=
  if a.isBlacklisted c.rawIdentifier t then .blocked
  else if a.isWhitelisted c.rawIdentifier u then .bypassed
  else .limited

/-- A request that is not limited leaves the limiters alone. -/
theorem Guard.handle_treatment (s : Guard) (c : Client) (path : GoString) (r : Readings) :
    match s.accessList.treatment c r.blacklist r.whitelist with
    | .blocked => s.handle c path r = (s, .accessDenied c.identifier)
    | .bypassed => s.handle c path r = (s, .next none)
    | .limited => ∀ identifier, (s.handle c path r).2 ≠ .accessDenied identifier := by
  have hserve : ∀ (store : Option (Store ℚ)) identifier,
      (Store.serve store c path r).2 ≠ .accessDenied identifier := by
    intro store identifier
    unfold Store.serve
    split
    · exact nofun
    · simp only
      split
      · exact nofun
      · simp only [Limiter.serve]
        split_ifs <;> exact nofun
  unfold AccessList.treatment
  by_cases hblack : s.accessList.isBlacklisted c.rawIdentifier r.blacklist = true
  · simp only [hblack, if_true, handle]
  · by_cases hwhite : s.accessList.isWhitelisted c.rawIdentifier r.whitelist = true
    · simp only [hblack, hwhite, if_true, if_false, handle, Bool.false_eq_true]
    · simp only [hblack, hwhite, if_false, handle, Bool.false_eq_true]
      intro identifier
      split_ifs <;> exact hserve _ identifier

namespace AccessList

/-- An unexpired blacklist entry of the client's own type names it. -/
def Blocks (a : AccessList) (c : Client) (t : Time) : Prop :=
  ∃ key entry, a.blacklisted.lookup key = some entry ∧ entry.type = c.limiterType ∧
    entry.identifier = c.rawIdentifier ∧ ¬ entry.Expired t

/-- An unexpired whitelist entry of the client's own type names it. -/
def Bypasses (a : AccessList) (c : Client) (u : Time) : Prop :=
  ∃ key entry, a.whitelisted.lookup key = some entry ∧ entry.type = c.limiterType ∧
    entry.identifier = c.rawIdentifier ∧ ¬ entry.Expired u

/-- A client is treated as the entries of its own type say. -/
def Own (a : AccessList) (c : Client) (t u : Time) : Prop :=
  (a.treatment c t u = .blocked ↔ a.Blocks c t) ∧
    (a.treatment c t u = .bypassed ↔ ¬ a.Blocks c t ∧ a.Bypasses c u)

/-- No unexpired entry of another type stands under the client's identifier, or it is
one of the whitelist and the client is blocked anyway. -/
def Clear (a : AccessList) (c : Client) (t u : Time) : Prop :=
  (∀ entry, a.block c.rawIdentifier t = some entry → entry.type = c.limiterType) ∧
    (a.block c.rawIdentifier t = none →
      ∀ entry, a.bypass c.rawIdentifier u = some entry → entry.type = c.limiterType)

/-- Every entry is found under its identifier. -/
structure Keyed (a : AccessList) : Prop where
  whitelisted : ∀ key entry, a.whitelisted.lookup key = some entry → entry.identifier = key
  blacklisted : ∀ key entry, a.blacklisted.lookup key = some entry → entry.identifier = key

variable {a : AccessList} {c : Client} {t u : Time}

theorem blocks_iff (h : a.Keyed) : a.Blocks c t ↔
    ∃ entry, a.block c.rawIdentifier t = some entry ∧ entry.type = c.limiterType := by
  constructor
  · rintro ⟨key, entry, hlookup, htype, hid, hlive⟩
    rw [← h.blacklisted key entry hlookup, hid] at hlookup
    exact ⟨entry, Option.filter_eq_some_iff.mpr ⟨hlookup, decide_eq_true hlive⟩, htype⟩
  · rintro ⟨entry, hblock, htype⟩
    obtain ⟨hlookup, hlive⟩ := Option.filter_eq_some_iff.mp hblock
    exact ⟨_, entry, hlookup, htype, h.blacklisted _ entry hlookup, of_decide_eq_true hlive⟩

theorem bypasses_iff (h : a.Keyed) : a.Bypasses c u ↔
    ∃ entry, a.bypass c.rawIdentifier u = some entry ∧ entry.type = c.limiterType := by
  constructor
  · rintro ⟨key, entry, hlookup, htype, hid, hlive⟩
    rw [← h.whitelisted key entry hlookup, hid] at hlookup
    exact ⟨entry, Option.filter_eq_some_iff.mpr ⟨hlookup, decide_eq_true hlive⟩, htype⟩
  · rintro ⟨entry, hbypass, htype⟩
    obtain ⟨hlookup, hlive⟩ := Option.filter_eq_some_iff.mp hbypass
    exact ⟨_, entry, hlookup, htype, h.whitelisted _ entry hlookup, of_decide_eq_true hlive⟩

theorem treatment_eq : a.treatment c t u =
    if (a.block c.rawIdentifier t).isSome then .blocked
    else if (a.bypass c.rawIdentifier u).isSome then .bypassed else .limited := by
  rw [treatment, isBlacklisted_eq, isWhitelisted_eq]

theorem own_iff (h : a.Keyed) : a.Own c t u ↔ a.Clear c t u := by
  rw [Own, Clear, blocks_iff h, bypasses_iff h, treatment_eq]
  cases hblock : a.block c.rawIdentifier t with
  | some entry => simp +contextual
  | none =>
    cases hbypass : a.bypass c.rawIdentifier u with
    | some entry => simp
    | none => simp

theorem treatment_congr {a' : AccessList}
    (hwhite : a'.whitelisted.lookup c.rawIdentifier = a.whitelisted.lookup c.rawIdentifier)
    (hblack : a'.blacklisted.lookup c.rawIdentifier = a.blacklisted.lookup c.rawIdentifier) :
    a'.treatment c t u = a.treatment c t u := by
  rw [treatment_eq, treatment_eq, block, block, bypass, bypass, hwhite, hblack]

theorem addToWhitelist_cases (a : AccessList) (entry : WhitelistEntry) (now : Time) :
    (a.addToWhitelist entry now).1 = a ∨ check entry.identifier entry.type = none ∧
      ∃ added : WhitelistEntry, added.identifier = entry.identifier ∧ added.type = entry.type ∧
        (a.addToWhitelist entry now).1 =
          { a with whitelisted := a.whitelisted.insert entry.identifier added } := by
  unfold addToWhitelist
  cases hcheck : check entry.identifier entry.type with
  | some e => exact .inl rfl
  | none =>
    refine .inr ⟨rfl, ?_⟩
    dsimp only
    split_ifs
    · exact ⟨{ entry with addedAt := now }, rfl, rfl, rfl⟩
    · exact ⟨entry, rfl, rfl, rfl⟩

theorem addToBlacklist_cases (a : AccessList) (entry : BlacklistEntry) (now : Time) :
    (a.addToBlacklist entry now).1 = a ∨
      (check entry.identifier entry.type = none ∧ entry.expiresAt ≠ zeroTime) ∧
      ∃ added : BlacklistEntry, added.identifier = entry.identifier ∧ added.type = entry.type ∧
        (a.addToBlacklist entry now).1 =
          { a with blacklisted := a.blacklisted.insert entry.identifier added } := by
  unfold addToBlacklist
  cases hcheck : check entry.identifier entry.type with
  | some e => exact .inl rfl
  | none =>
    dsimp only
    split_ifs with hexpires
    · exact .inl rfl
    · exact .inr ⟨⟨rfl, hexpires⟩, { entry with addedAt := now }, rfl, rfl, rfl⟩
    · exact .inr ⟨⟨rfl, hexpires⟩, entry, rfl, rfl, rfl⟩

theorem removeFromWhitelist_spec (a : AccessList) (identifier : GoString) :
    (a.removeFromWhitelist identifier).1.blacklisted = a.blacklisted ∧
      ∀ key, (a.removeFromWhitelist identifier).1.whitelisted.lookup key =
        if key = identifier then none else a.whitelisted.lookup key := by
  unfold removeFromWhitelist
  split
  · exact ⟨rfl, fun key => GoMap.lookup_erase_ite ..⟩
  · next hnone => exact ⟨rfl, fun key => by rw [← GoMap.lookup_erase_ite, GoMap.erase_of_lookup hnone]⟩

theorem removeFromBlacklist_spec (a : AccessList) (identifier : GoString) :
    (a.removeFromBlacklist identifier).1.whitelisted = a.whitelisted ∧
      ∀ key, (a.removeFromBlacklist identifier).1.blacklisted.lookup key =
        if key = identifier then none else a.blacklisted.lookup key := by
  unfold removeFromBlacklist
  split
  · exact ⟨rfl, fun key => GoMap.lookup_erase_ite ..⟩
  · next hnone => exact ⟨rfl, fun key => by rw [← GoMap.lookup_erase_ite, GoMap.erase_of_lookup hnone]⟩

theorem treatment_cleanup {now : Time} (ht : now ≤ t) (hu : now ≤ u) :
    (a.cleanup now).treatment c t u = a.treatment c t u := by
  have hblock : (a.cleanup now).block c.rawIdentifier t = a.block c.rawIdentifier t := by
    simp only [block, cleanup, GoMap.lookup_collect]
    cases a.blacklisted.lookup c.rawIdentifier with
    | none => rfl
    | some entry =>
      by_cases hgone : entry.Expired now
      · have hover : entry.Expired t := lt_of_lt_of_le hgone ht
        simp [hgone, hover, Option.filter]
      · simp [hgone]
  have hbypass : (a.cleanup now).bypass c.rawIdentifier u = a.bypass c.rawIdentifier u := by
    simp only [bypass, cleanup, GoMap.lookup_collect]
    cases a.whitelisted.lookup c.rawIdentifier with
    | none => rfl
    | some entry =>
      by_cases hgone : entry.Expired now
      · have hover : entry.Expired u := by
          obtain ⟨expiresAt, hexpires, hpast⟩ := hgone
          exact ⟨expiresAt, hexpires, lt_of_lt_of_le hpast hu⟩
        simp [hgone, hover, Option.filter]
      · simp [hgone]
  rw [treatment_eq, treatment_eq, hblock, hbypass]

end AccessList

/-- The access list and the time. -/
structure Listing where
  accessList : AccessList
  now : Time

inductive ListAction where
  | advance (nanoseconds : ℕ)
  | addToWhitelist (entry : WhitelistEntry)
  | addToBlacklist (entry : BlacklistEntry)
  | removeFromWhitelist (identifier : GoString)
  | removeFromBlacklist (identifier : GoString)
  | cleanup

inductive ListAnswer where
  | done
  | added (refused : Option GoError)
  | removed (existed : Bool)
  deriving DecidableEq

namespace Listing

def start (now : Time) : Listing := ⟨.newAccessList, now⟩

def step (s : Listing) : ListAction → Listing × ListAnswer
  | .advance d => ({ s with now := s.now + d }, .done)
  | .addToWhitelist entry =>
    let r := s.accessList.addToWhitelist entry s.now
    ({ s with accessList := r.1 }, .added r.2)
  | .addToBlacklist entry =>
    let r := s.accessList.addToBlacklist entry s.now
    ({ s with accessList := r.1 }, .added r.2)
  | .removeFromWhitelist identifier =>
    let r := s.accessList.removeFromWhitelist identifier
    ({ s with accessList := r.1 }, .removed r.2)
  | .removeFromBlacklist identifier =>
    let r := s.accessList.removeFromBlacklist identifier
    ({ s with accessList := r.1 }, .removed r.2)
  | .cleanup => ({ s with accessList := s.accessList.cleanup s.now }, .done)

def machine : Machine Listing ListAction ListAnswer := ⟨step⟩

/-- Of the clients `K`, all with this identifier are of this type. -/
def Meant (K : Client → Prop) (identifier type : GoString) : Prop :=
  ∀ c, K c → c.rawIdentifier = identifier → c.limiterType = type

/-- An entry that is accepted names no client of another type. -/
def Names (K : Client → Prop) : ListAction → Prop
  | .addToWhitelist entry =>
    AccessList.check entry.identifier entry.type = none → Meant K entry.identifier entry.type
  | .addToBlacklist entry =>
    AccessList.check entry.identifier entry.type = none ∧ entry.expiresAt ≠ zeroTime →
      Meant K entry.identifier entry.type
  | _ => True

/-- Adding or removing an entry of one type leaves the treatment of the other type
alone, and a cleanup or the time passing that of everybody from then on. -/
def Undisturbed (K : Client → Prop) (s : Listing) (i : ListAction) : Prop :=
  let same (c : Client) (t u : Time) : Prop :=
    (s.step i).1.accessList.treatment c t u = s.accessList.treatment c t u
  match i with
  | .addToWhitelist entry => ∀ c, K c → c.limiterType ≠ entry.type → ∀ t u, same c t u
  | .addToBlacklist entry => ∀ c, K c → c.limiterType ≠ entry.type → ∀ t u, same c t u
  | .removeFromWhitelist identifier =>
    ∀ entry, s.accessList.whitelisted.lookup identifier = some entry →
      ∀ c, K c → c.limiterType ≠ entry.type → ∀ t u, same c t u
  | .removeFromBlacklist identifier =>
    ∀ entry, s.accessList.blacklisted.lookup identifier = some entry →
      ∀ c, K c → c.limiterType ≠ entry.type → ∀ t u, same c t u
  | .advance _ | .cleanup => ∀ c t u, s.now ≤ t → s.now ≤ u → same c t u

/-- Every entry names clients of its own type only. -/
structure Sorted (K : Client → Prop) (a : AccessList) : Prop extends a.Keyed where
  white : ∀ key entry, a.whitelisted.lookup key = some entry → Meant K key entry.type
  black : ∀ key entry, a.blacklisted.lookup key = some entry → Meant K key entry.type

variable {K : Client → Prop} {s : Listing}

theorem Sorted.clear (h : Sorted K s.accessList) {c : Client} (hc : K c) (t u : Time) :
    s.accessList.Clear c t u := by
  refine ⟨fun entry hblock => ?_, fun _ entry hbypass => ?_⟩
  · obtain ⟨hlookup, -⟩ := Option.filter_eq_some_iff.mp hblock
    exact (h.black _ entry hlookup c hc rfl).symm
  · obtain ⟨hlookup, -⟩ := Option.filter_eq_some_iff.mp hbypass
    exact (h.white _ entry hlookup c hc rfl).symm

theorem Sorted.of {a a' : AccessList} (h : Sorted K a)
    (hwhite : ∀ key entry, a'.whitelisted.lookup key = some entry →
      a.whitelisted.lookup key = some entry ∨ entry.identifier = key ∧ Meant K key entry.type)
    (hblack : ∀ key entry, a'.blacklisted.lookup key = some entry →
      a.blacklisted.lookup key = some entry ∨ entry.identifier = key ∧ Meant K key entry.type) :
    Sorted K a' where
  whitelisted key entry hlookup :=
    (hwhite key entry hlookup).elim (h.whitelisted key entry) And.left
  blacklisted key entry hlookup :=
    (hblack key entry hlookup).elim (h.blacklisted key entry) And.left
  white key entry hlookup := (hwhite key entry hlookup).elim (h.white key entry) And.right
  black key entry hlookup := (hblack key entry hlookup).elim (h.black key entry) And.right

theorem lookup_insert_cases {V : Type} {m : GoMap GoString V} {k key : GoString} {v e : V}
    (h : (m.insert k v).lookup key = some e) : m.lookup key = some e ∨ key = k ∧ e = v := by
  rw [GoMap.lookup_insert_ite] at h
  split_ifs at h with hkey
  · exact .inr ⟨hkey, (Option.some.inj h).symm⟩
  · exact .inl h

theorem Sorted.step (h : Sorted K s.accessList) {i : ListAction} (hi : Names K i) :
    Sorted K (s.step i).1.accessList := by
  cases i with
  | advance d => exact h
  | addToWhitelist entry =>
    change Sorted K (s.accessList.addToWhitelist entry s.now).1
    rcases s.accessList.addToWhitelist_cases entry s.now with hsame | ⟨haccepted, added, hid, htype, hadd⟩
    · rw [hsame]
      exact h
    · rw [hadd]
      refine h.of (fun key e hlookup => ?_) fun key e hlookup => .inl hlookup
      rcases lookup_insert_cases hlookup with hold | ⟨rfl, rfl⟩
      · exact .inl hold
      · exact .inr ⟨hid, htype.symm ▸ hi haccepted⟩
  | addToBlacklist entry =>
    change Sorted K (s.accessList.addToBlacklist entry s.now).1
    rcases s.accessList.addToBlacklist_cases entry s.now with hsame | ⟨haccepted, added, hid, htype, hadd⟩
    · rw [hsame]
      exact h
    · rw [hadd]
      refine h.of (fun key e hlookup => .inl hlookup) fun key e hlookup => ?_
      rcases lookup_insert_cases hlookup with hold | ⟨rfl, rfl⟩
      · exact .inl hold
      · exact .inr ⟨hid, htype.symm ▸ hi haccepted⟩
  | removeFromWhitelist identifier =>
    change Sorted K (s.accessList.removeFromWhitelist identifier).1
    obtain ⟨hblack, hwhite⟩ := s.accessList.removeFromWhitelist_spec identifier
    refine h.of (fun key e hlookup => ?_) fun key e hlookup => .inl (hblack ▸ hlookup)
    rw [hwhite] at hlookup
    split_ifs at hlookup
    exact .inl hlookup
  | removeFromBlacklist identifier =>
    change Sorted K (s.accessList.removeFromBlacklist identifier).1
    obtain ⟨hwhite, hblack⟩ := s.accessList.removeFromBlacklist_spec identifier
    refine h.of (fun key e hlookup => .inl (hwhite ▸ hlookup)) fun key e hlookup => ?_
    rw [hblack] at hlookup
    split_ifs at hlookup
    exact .inl hlookup
  | cleanup =>
    change Sorted K (s.accessList.cleanup s.now)
    refine h.of (fun key e hlookup => ?_) fun key e hlookup => ?_
    · simp only [AccessList.cleanup, GoMap.lookup_collect] at hlookup
      obtain ⟨old, hold, hkept⟩ := Option.bind_eq_some_iff.mp hlookup
      split_ifs at hkept
      exact .inl (hkept ▸ hold)
    · simp only [AccessList.cleanup, GoMap.lookup_collect] at hlookup
      obtain ⟨old, hold, hkept⟩ := Option.bind_eq_some_iff.mp hlookup
      split_ifs at hkept
      exact .inl (hkept ▸ hold)

theorem undisturbed_step (h : Sorted K s.accessList) {i : ListAction} (hi : Names K i) :
    Undisturbed K s i := by
  cases i with
  | advance d => exact fun c t u _ _ => rfl
  | cleanup => exact fun c t u ht hu => AccessList.treatment_cleanup ht hu
  | addToWhitelist entry =>
    intro c hc htype t u
    change (s.accessList.addToWhitelist entry s.now).1.treatment c t u = _
    rcases s.accessList.addToWhitelist_cases entry s.now with hsame | ⟨haccepted, added, -, -, hadd⟩
    · rw [hsame]
    · have hother : c.rawIdentifier ≠ entry.identifier := fun hraw => htype (hi haccepted c hc hraw)
      rw [hadd]
      exact AccessList.treatment_congr (Finmap.lookup_insert_of_ne _ hother) rfl
  | addToBlacklist entry =>
    intro c hc htype t u
    change (s.accessList.addToBlacklist entry s.now).1.treatment c t u = _
    rcases s.accessList.addToBlacklist_cases entry s.now with hsame | ⟨haccepted, added, -, -, hadd⟩
    · rw [hsame]
    · have hother : c.rawIdentifier ≠ entry.identifier := fun hraw => htype (hi haccepted c hc hraw)
      rw [hadd]
      exact AccessList.treatment_congr rfl (Finmap.lookup_insert_of_ne _ hother)
  | removeFromWhitelist identifier =>
    intro entry hentry c hc htype t u
    have hother : c.rawIdentifier ≠ identifier := fun hraw =>
      htype (h.white identifier entry hentry c hc hraw)
    obtain ⟨hblack, hwhite⟩ := s.accessList.removeFromWhitelist_spec identifier
    exact AccessList.treatment_congr ((hwhite _).trans (if_neg hother)) (by rw [← hblack]; rfl)
  | removeFromBlacklist identifier =>
    intro entry hentry c hc htype t u
    have hother : c.rawIdentifier ≠ identifier := fun hraw =>
      htype (h.black identifier entry hentry c hc hraw)
    obtain ⟨hwhite, hblack⟩ := s.accessList.removeFromBlacklist_spec identifier
    exact AccessList.treatment_congr (by rw [← hwhite]; rfl) ((hblack _).trans (if_neg hother))

theorem sorted_start (K : Client → Prop) (now : Time) : Sorted K (start now).accessList where
  whitelisted _ _ h := nomatch h
  blacklisted _ _ h := nomatch h
  white _ _ h := nomatch h
  black _ _ h := nomatch h

theorem keyed_run (now : Time) (actions : List ListAction) :
    (machine.run (start now) actions).1.accessList.Keyed := by
  have hnames : ∀ i, Names (fun _ => False) i := by
    intro i
    cases i with
    | addToWhitelist entry => exact fun _ c hc => hc.elim
    | addToBlacklist entry => exact fun _ c hc => hc.elim
    | _ => trivial
  exact (@Machine.invariant_run _ _ _ machine (fun s => Sorted (fun _ => False) s.accessList)
    (fun s i h => Sorted.step h (hnames i)) _ (sorted_start _ now) actions).toKeyed

theorem sorted_run (h : Sorted K s.accessList) {actions : List ListAction}
    (hnames : ∀ i ∈ actions, Names K i) :
    Sorted K (machine.run s actions).1.accessList ∧ machine.Along (Undisturbed K) s actions := by
  induction actions generalizing s with
  | nil => exact ⟨h, trivial⟩
  | cons i actions ih =>
    have hi := hnames i List.mem_cons_self
    have hrest := ih (h.step hi) fun j hj => hnames j (List.mem_cons_of_mem i hj)
    exact ⟨hrest.1, undisturbed_step h hi, hrest.2⟩

/-- A request is treated as the entries of its own type say iff no unexpired entry of the
other type stands in its way. In a run that adds no entry with an identifier of a client
of the other type, that is so for every client in every state, and no step on one type
disturbs the other. -/
theorem own_type_only (K : Client → Prop) (now : Time) (actions : List ListAction) :
    (∀ c t u, (machine.run (start now) actions).1.accessList.Own c t u ↔
      (machine.run (start now) actions).1.accessList.Clear c t u) ∧
    ((∀ i ∈ actions, Names K i) →
      (∀ n c, K c → ∀ t u, (machine.run (start now) (actions.take n)).1.accessList.Own c t u) ∧
        machine.Along (Undisturbed K) (start now) actions) := by
  refine ⟨fun c t u => AccessList.own_iff (keyed_run now actions), fun hnames => ⟨?_, ?_⟩⟩
  · intro n c hc t u
    have hnamed : ∀ i ∈ actions.take n, Names K i := fun i hi =>
      hnames i (List.mem_of_mem_take hi)
    have hsorted := (sorted_run (sorted_start K now) hnamed).1
    exact (AccessList.own_iff hsorted.toKeyed).mpr (hsorted.clear hc t u)
  · exact (sorted_run (sorted_start K now) hnames).2

/-- An entry for the address, and one for API keys that is refused: it does not say when it ends. -/
def addressEntries : List ListAction :=
  [.addToBlacklist ⟨str "10.0.0.1", str "ip", [], 0, 1000, []⟩,
    .addToBlacklist ⟨str "10.0.0.1", str "apikey", [], 0, zeroTime, []⟩]

theorem own_type_only_address :
    (machine.run (start 0) addressEntries).1.accessList.Own ⟨str "10.0.0.1", []⟩ 5 5 := by
  refine ((own_type_only
    (fun c => c = ⟨str "10.0.0.1", []⟩ ∨ c = ⟨str "10.0.0.1", str "key"⟩) 0
    addressEntries).2 ?_).1 2 _ (.inl rfl) 5 5
  intro i hi
  rcases List.mem_pair.mp hi with rfl | rfl
  · rintro - c (rfl | rfl) hraw
    · rfl
    · exact absurd hraw (by decide)
  · exact fun haccepted => absurd rfl haccepted.2

/-- An entry for API keys. -/
def apiKeyEntry : BlacklistEntry := ⟨str "10.0.0.1", str "apikey", [], 0, 1000, []⟩

/-- It blocks the address that is written the same. -/
theorem blocked_by_other_type : ¬ ∀ (now : Time) (actions : List ListAction) (c : Client)
    (t u : Time), t ≤ u → (machine.run (start now) actions).1.accessList.Own c t u := by
  intro h
  have hown := h 0 [.addToBlacklist apiKeyEntry] ⟨str "10.0.0.1", []⟩ 5 5 le_rfl
  have hclear := (AccessList.own_iff (keyed_run 0 [.addToBlacklist apiKeyEntry])).mp hown
  have htype := hclear.1 apiKeyEntry (by decide +kernel)
  exact absurd htype (by decide)

end Listing

end Konsul.Ratelimit
