import Konsul.Auth.APIKey
import Mathlib.Data.Set.Function

/-!
# The life of an API key

A key lives from the call that generates it to the first deletion of its id. In between
the revocations and updates of its id say whether it is enabled and what it permits.
`Live` reads this off the calls, and the map of the service is what it says as long as ids
and random bytes are fresh and no two of the keys have one hash.
-/

namespace Konsul

open GoLib

/-- What was issued: an id, the text of the key, and what it was generated with. -/
structure IssuedKey where
  id : GoString
  text : GoString
  permissions : List GoString
  expiresAt : Option Time

namespace APIKeyCall

/-- The id and the bytes a call draws. -/
def drawn : APIKeyCall → Option (GoString × Bytes)
  | generate name _ _ _ (.ok keyBytes) id _ => if name = [] then none else some (id, keyBytes)
  | _ => none

/-- The key a call issues. -/
def issued (keyPrefix : GoString) : APIKeyCall → Option IssuedKey
  | generate name permissions _ expiresAt (.ok keyBytes) id _ =>
    if name = [] then none
    else some ⟨id, APIKeyService.keyString keyPrefix keyBytes, permissions, expiresAt⟩
  | _ => none

/-- The id that a call manages. -/
def target : APIKeyCall → Option GoString
  | revoke _ keyID => some keyID
  | delete _ keyID => some keyID
  | update _ keyID _ _ _ _ => some keyID
  | _ => none

def Deletes (keyID : GoString) : APIKeyCall → Prop
  | delete _ id => id = keyID
  | _ => False

/-- What a call makes of the enabled flag of a key. -/
def setsEnabled (keyID : GoString) (enabled : Bool) : APIKeyCall → Bool
  | revoke _ id => if id = keyID then false else enabled
  | update _ id _ _ _ (some b) => if id = keyID then b else enabled
  | _ => enabled

/-- What a call makes of the permissions of a key. -/
def setsPermissions (keyID : GoString) (permissions : List GoString) : APIKeyCall → List GoString
  | update _ id _ (some p) _ _ => if id = keyID then p else permissions
  | _ => permissions

end APIKeyCall

/-- The key was issued and not deleted since; the flag and the permissions are those set last. -/
def Live (keyPrefix : GoString) (calls : List APIKeyCall) (x : IssuedKey) (enabled : Bool)
    (permissions : List GoString) : Prop :=
  ∃ before call after, calls = before ++ call :: after ∧ call.issued keyPrefix = some x ∧
    (∀ c ∈ after, ¬ c.Deletes x.id) ∧ enabled = after.foldl (APIKeyCall.setsEnabled x.id) true ∧
    permissions = after.foldl (APIKeyCall.setsPermissions x.id) x.permissions

variable {keyPrefix : GoString} {calls : List APIKeyCall} {call : APIKeyCall} {x : IssuedKey}
  {enabled : Bool} {permissions : List GoString}

theorem live_snoc : Live keyPrefix (calls ++ [call]) x enabled permissions ↔
    (call.issued keyPrefix = some x ∧ enabled = true ∧ permissions = x.permissions) ∨
    ∃ e p, Live keyPrefix calls x e p ∧ ¬ call.Deletes x.id ∧
      enabled = call.setsEnabled x.id e ∧ permissions = call.setsPermissions x.id p := by
  constructor
  · rintro ⟨before, c, after, hcalls, hissued, hdeleted, henabled, hpermissions⟩
    rcases List.eq_nil_or_concat after with rfl | ⟨after, last, rfl⟩
    · obtain ⟨-, hlast⟩ := List.append_inj' hcalls rfl
      cases hlast
      exact .inl ⟨hissued, henabled, hpermissions⟩
    · rw [List.concat_eq_append] at hcalls hdeleted henabled hpermissions
      have hsplit : calls ++ [call] = (before ++ c :: after) ++ [last] := by
        rw [hcalls, List.append_assoc, List.cons_append]
      obtain ⟨hold, hlast⟩ := List.append_inj' hsplit rfl
      cases hlast
      rw [List.foldl_append] at henabled hpermissions
      exact .inr ⟨_, _, ⟨before, c, after, hold, hissued,
        fun d hd => hdeleted d (List.mem_append_left _ hd), rfl, rfl⟩,
        hdeleted call (List.mem_append_right _ List.mem_cons_self), henabled, hpermissions⟩
  · rintro (⟨hissued, rfl, rfl⟩ | ⟨e, p, ⟨before, c, after, rfl, hissued, hdeleted, rfl, rfl⟩,
      hcall, rfl, rfl⟩)
    · exact ⟨calls, call, [], rfl, hissued, fun c hc => absurd hc List.not_mem_nil, rfl, rfl⟩
    · refine ⟨before, c, after ++ [call], by simp, hissued, fun d hd => ?_, ?_, ?_⟩
      · rcases List.mem_append.mp hd with hd | hd
        · exact hdeleted d hd
        · rw [List.mem_singleton.mp hd]
          exact hcall
      · rw [List.foldl_append]
        rfl
      · rw [List.foldl_append]
        rfl

theorem Live.issued (h : Live keyPrefix calls x enabled permissions) :
    ∃ call ∈ calls, call.issued keyPrefix = some x := by
  obtain ⟨before, call, after, rfl, hissued, -⟩ := h
  exact ⟨call, List.mem_append_right _ List.mem_cons_self, hissued⟩

/-- Ids and random bytes are drawn once. -/
structure Fresh (calls : List APIKeyCall) : Prop where
  ids : ((calls.filterMap APIKeyCall.drawn).map Prod.fst).Nodup
  bytes : ((calls.filterMap APIKeyCall.drawn).map Prod.snd).Nodup

/-- What the calls draw, as the texts of keys. -/
def drawnTexts (keyPrefix : GoString) (calls : List APIKeyCall) : Set GoString :=
  {s | ∃ call ∈ calls, ∃ d ∈ call.drawn, s = APIKeyService.keyString keyPrefix d.2}

theorem APIKeyCall.issued_drawn (h : call.issued keyPrefix = some x) :
    ∃ d, call.drawn = some d ∧ x.id = d.1 ∧ x.text = APIKeyService.keyString keyPrefix d.2 := by
  cases call with
  | generate name p m e random id now =>
    cases random with
    | error err => cases h
    | ok keyBytes =>
      simp only [issued] at h
      split_ifs at h with hname
      cases h
      exact ⟨(id, keyBytes), if_neg hname, rfl, rfl⟩
  | _ => cases h

theorem keyString_inj {keyPrefix s t : GoString}
    (h : APIKeyService.keyString keyPrefix s = APIKeyService.keyString keyPrefix t) : s = t :=
  hexEncode_injective (List.append_cancel_left h)

theorem eq_of_nodup_picks {α β γ : Type} {f : α → Option β} {g : β → γ} {l : List α}
    (h : ((l.filterMap f).map g).Nodup) {a a' : α} (ha : a ∈ l) (ha' : a' ∈ l) {b b' : β}
    (hb : f a = some b) (hb' : f a' = some b') (heq : g b = g b') : b = b' := by
  have hmem : b ∈ l.filterMap f := List.mem_filterMap.mpr ⟨a, ha, hb⟩
  have hmem' : b' ∈ l.filterMap f := List.mem_filterMap.mpr ⟨a', ha', hb'⟩
  exact List.inj_on_of_nodup_map h hmem hmem' heq

theorem Fresh.text_of_id (h : Fresh calls) {x y : IssuedKey} {c d : APIKeyCall} (hc : c ∈ calls)
    (hd : d ∈ calls) (hx : c.issued keyPrefix = some x) (hy : d.issued keyPrefix = some y)
    (hid : x.id = y.id) : x.text = y.text := by
  obtain ⟨m, hm, hxid, hxtext⟩ := APIKeyCall.issued_drawn hx
  obtain ⟨n, hn, hyid, hytext⟩ := APIKeyCall.issued_drawn hy
  have hsame : m = n := eq_of_nodup_picks h.ids hc hd hm hn (by rw [← hxid, ← hyid, hid])
  rw [hxtext, hytext, hsame]

theorem Fresh.id_of_text (h : Fresh calls) {x y : IssuedKey} {c d : APIKeyCall} (hc : c ∈ calls)
    (hd : d ∈ calls) (hx : c.issued keyPrefix = some x) (hy : d.issued keyPrefix = some y)
    (htext : x.text = y.text) : x.id = y.id := by
  obtain ⟨m, hm, hxid, hxtext⟩ := APIKeyCall.issued_drawn hx
  obtain ⟨n, hn, hyid, hytext⟩ := APIKeyCall.issued_drawn hy
  have hbytes : m.2 = n.2 := keyString_inj (by rw [← hxtext, ← hytext, htext])
  have hsame : m = n := eq_of_nodup_picks h.bytes hc hd hm hn hbytes
  rw [hxid, hyid, hsame]

theorem Fresh.of_append {calls later : List APIKeyCall} (h : Fresh (calls ++ later)) :
    Fresh calls where
  ids := by
    have hids := h.ids
    rw [List.filterMap_append, List.map_append] at hids
    exact (List.nodup_append.mp hids).1
  bytes := by
    have hbytes := h.bytes
    rw [List.filterMap_append, List.map_append] at hbytes
    exact (List.nodup_append.mp hbytes).1

/-- The bytes that a last call draws were not drawn before. -/
theorem Fresh.text_ne (h : Fresh (calls ++ [call])) {d : GoString × Bytes}
    (hd : call.drawn = some d) {y : IssuedKey} {c : APIKeyCall} (hc : c ∈ calls)
    (hy : c.issued keyPrefix = some y) : y.text ≠ APIKeyService.keyString keyPrefix d.2 := by
  intro htext
  obtain ⟨m, hm, -, hmtext⟩ := APIKeyCall.issued_drawn hy
  have hbytes := h.bytes
  rw [List.filterMap_append, List.map_append] at hbytes
  refine (List.nodup_append.mp hbytes).2.2 m.2 ?_ d.2 ?_ (keyString_inj (hmtext ▸ htext))
  · exact List.mem_map_of_mem (List.mem_filterMap.mpr ⟨c, hc, hm⟩)
  · exact List.mem_map_of_mem (List.mem_filterMap.mpr ⟨call, List.mem_singleton_self call, hd⟩)

namespace APIKeyService

/-! ### The loops by id -/

section

variable {a : APIKeyService} {range : APIKeyRange} {keyID : GoString}

/-- No two hashes have a key with the id. -/
def Unique (a : APIKeyService) (keyID : GoString) : Prop :=
  ∀ h h' k k', a.keys.lookup h = some k → a.keys.lookup h' = some k' → k.id = keyID →
    k'.id = keyID → h = h'

theorem scan_some {e : Σ _ : GoString, APIKey} (h : a.scan range keyID = some e) :
    a.keys.lookup e.1 = some e.2 ∧ e.2.id = keyID :=
  ⟨((range a.keys).mem_list_iff e.1 e.2).mp (List.mem_of_find?_eq_some h),
    of_decide_eq_true (@List.find?_some _ (fun e : Σ _ : GoString, APIKey => e.2.id = keyID) _ _ h)⟩

theorem scan_none (h : a.scan range keyID = none) {hash : GoString} {k : APIKey}
    (hk : a.keys.lookup hash = some k) : k.id ≠ keyID := by
  have hall := List.find?_eq_none.mp h ⟨hash, k⟩ (((range a.keys).mem_list_iff hash k).mpr hk)
  simpa using hall

/-- In whatever order, a loop changes the key with the id and no other. -/
theorem lookup_change (hunique : a.Unique keyID) (f : APIKey → APIKey) (hash : GoString) :
    (a.change range keyID f).1.keys.lookup hash =
      (a.keys.lookup hash).map fun k => if k.id = keyID then f k else k := by
  unfold change
  cases hscan : a.scan range keyID with
  | none =>
    change a.keys.lookup hash = _
    cases hk : a.keys.lookup hash with
    | none => rfl
    | some k => rw [Option.map_some, if_neg (scan_none hscan hk)]
  | some e =>
    obtain ⟨he, hid⟩ := scan_some hscan
    change (a.keys.insert e.1 (f e.2)).lookup hash = _
    rw [GoMap.lookup_insert_ite]
    split_ifs with hhash
    · rw [hhash, he, Option.map_some, if_pos hid]
    · cases hk : a.keys.lookup hash with
      | none => rfl
      | some k =>
        have hother : k.id ≠ keyID := fun hkid => hhash (hunique hash e.1 k e.2 hk he hkid hid)
        rw [Option.map_some, if_neg hother]

theorem lookup_delete (hunique : a.Unique keyID) (hash : GoString) :
    (a.deleteAPIKey range keyID).1.keys.lookup hash =
      (a.keys.lookup hash).filter fun k => k.id ≠ keyID := by
  unfold deleteAPIKey
  cases hscan : a.scan range keyID with
  | none =>
    change a.keys.lookup hash = _
    cases hk : a.keys.lookup hash with
    | none => rfl
    | some k => simp [Option.filter, scan_none hscan hk]
  | some e =>
    obtain ⟨he, hid⟩ := scan_some hscan
    change (a.keys.erase e.1).lookup hash = _
    rw [GoMap.lookup_erase_ite]
    split_ifs with hhash
    · rw [hhash, he]
      simp [Option.filter, hid]
    · cases hk : a.keys.lookup hash with
      | none => rfl
      | some k =>
        have hother : k.id ≠ keyID := fun hkid => hhash (hunique hash e.1 k e.2 hk he hkid hid)
        simp [Option.filter, hother]

end

/-! ### The map and the calls -/

variable {sha256 : Bytes → Bytes}

/-- The service holds just the keys that are alive. -/
structure Tracks (sha256 : Bytes → Bytes) (keyPrefix : GoString) (calls : List APIKeyCall)
    (a : APIKeyService) : Prop where
  same : a.keyPrefix = keyPrefix
  sound : ∀ h k, a.keys.lookup h = some k → ∃ x, Live keyPrefix calls x k.enabled k.permissions ∧
    h = keyHash sha256 x.text ∧ k.id = x.id ∧ k.expiresAt = x.expiresAt
  complete : ∀ x e p, Live keyPrefix calls x e p → ∃ k,
    a.keys.lookup (keyHash sha256 x.text) = some k ∧ k.id = x.id ∧ k.expiresAt = x.expiresAt ∧
      k.enabled = e ∧ k.permissions = p

variable {a : APIKeyService}

theorem Tracks.unique (h : Tracks sha256 keyPrefix calls a) (hfresh : Fresh calls)
    (keyID : GoString) : a.Unique keyID := by
  intro hash hash' k k' hk hk' hid hid'
  obtain ⟨x, hlive, rfl, hxid, -⟩ := h.sound hash k hk
  obtain ⟨y, hlive', rfl, hyid, -⟩ := h.sound hash' k' hk'
  obtain ⟨c, hc, hx⟩ := hlive.issued
  obtain ⟨d, hd, hy⟩ := hlive'.issued
  rw [hfresh.text_of_id hc hd hx hy (by rw [← hxid, ← hyid, hid, hid'])]

/-- A call that issues no key and deletes none changes the keys as it changes what is alive. -/
theorem Tracks.of_map {a' : APIKeyService} (h : Tracks sha256 keyPrefix calls a)
    (hkey : a'.keyPrefix = a.keyPrefix) (hissued : call.issued keyPrefix = none)
    (hdeletes : ∀ id, ¬ call.Deletes id)
    (hlookup : ∀ hash, ∃ g : APIKey → APIKey, a'.keys.lookup hash = (a.keys.lookup hash).map g ∧
      ∀ k, (g k).id = k.id ∧ (g k).expiresAt = k.expiresAt ∧
        (g k).enabled = call.setsEnabled k.id k.enabled ∧
        (g k).permissions = call.setsPermissions k.id k.permissions) :
    Tracks sha256 keyPrefix (calls ++ [call]) a' where
  same := hkey.trans h.same
  sound hash k hk := by
    obtain ⟨g, hg, hfields⟩ := hlookup hash
    rw [hg] at hk
    obtain ⟨old, hold, rfl⟩ := Option.map_eq_some_iff.mp hk
    obtain ⟨x, hlive, hhash, hid, hexpires⟩ := h.sound hash old hold
    obtain ⟨hid', hexpires', henabled', hpermissions'⟩ := hfields old
    refine ⟨x, live_snoc.mpr (.inr ⟨_, _, hlive, hdeletes x.id, ?_, ?_⟩), hhash,
      hid'.trans hid, hexpires'.trans hexpires⟩
    · rw [henabled', hid]
    · rw [hpermissions', hid]
  complete x e p hlive := by
    rcases live_snoc.mp hlive with ⟨hnew, -⟩ | ⟨e, p, hwas, -, rfl, rfl⟩
    · rw [hissued] at hnew
      cases hnew
    · obtain ⟨old, hold, hid, hexpires, henabled, hpermissions⟩ := h.complete x e p hwas
      obtain ⟨g, hg, hfields⟩ := hlookup (keyHash sha256 x.text)
      obtain ⟨hid', hexpires', henabled', hpermissions'⟩ := hfields old
      refine ⟨g old, by rw [hg, hold, Option.map_some], hid'.trans hid, hexpires'.trans hexpires,
        ?_, ?_⟩
      · rw [henabled', hid, henabled]
      · rw [hpermissions', hid, hpermissions]

theorem tracks_new : Tracks sha256 (newAPIKeyService keyPrefix).keyPrefix []
    (newAPIKeyService keyPrefix) where
  same := rfl
  sound _ _ h := nomatch h
  complete x e p h := by
    obtain ⟨before, c, after, hcalls, -⟩ := h
    simp at hcalls

theorem Tracks.of_same (h : Tracks sha256 keyPrefix calls a)
    (hissued : call.issued keyPrefix = none) (hdeletes : ∀ id, ¬ call.Deletes id)
    (hsets : ∀ (id : GoString) b p, call.setsEnabled id b = b ∧ call.setsPermissions id p = p) :
    Tracks sha256 keyPrefix (calls ++ [call]) a :=
  h.of_map rfl hissued hdeletes fun _ =>
    ⟨fun k => k, Option.map_id'.symm, fun k =>
      ⟨rfl, rfl, (hsets k.id _ k.permissions).1.symm, (hsets k.id k.enabled _).2.symm⟩⟩

theorem Tracks.insert (h : Tracks sha256 keyPrefix calls a) (hfresh : Fresh (calls ++ [call]))
    {T : Set GoString} (hinj : Set.InjOn sha256 T) (hT : drawnTexts keyPrefix (calls ++ [call]) ⊆ T)
    (hissued : call.issued keyPrefix = some x) (hdeletes : ∀ id, ¬ call.Deletes id)
    (hsets : ∀ (id : GoString) b p, call.setsEnabled id b = b ∧ call.setsPermissions id p = p)
    {k : APIKey} (hid : k.id = x.id) (hexpires : k.expiresAt = x.expiresAt) (henabled : k.enabled = true)
    (hpermissions : k.permissions = x.permissions) :
    Tracks sha256 keyPrefix (calls ++ [call])
      { a with keys := a.keys.insert (keyHash sha256 x.text) k } := by
  have hother : ∀ y e p, Live keyPrefix calls y e p →
      keyHash sha256 y.text ≠ keyHash sha256 x.text := by
    intro y e p hlive hhash
    obtain ⟨c, hc, hy⟩ := hlive.issued
    obtain ⟨m, hm, -, hmtext⟩ := APIKeyCall.issued_drawn hy
    obtain ⟨d, hd, -, hdtext⟩ := APIKeyCall.issued_drawn hissued
    have hyT : y.text ∈ T := hT ⟨c, List.mem_append_left _ hc, m, hm, hmtext⟩
    have hxT : x.text ∈ T :=
      hT ⟨call, List.mem_append_right _ (List.mem_singleton_self call), d, hd, hdtext⟩
    have htext := hinj hyT hxT (hexEncode_injective hhash)
    exact hfresh.text_ne hd hc hy (htext.trans hdtext)
  refine ⟨h.same, fun hash k' hk' => ?_, fun y e p hlive => ?_⟩
  · rw [GoMap.lookup_insert_ite] at hk'
    split_ifs at hk' with hhash
    · cases hk'
      exact ⟨x, live_snoc.mpr (.inl ⟨hissued, henabled, hpermissions⟩), hhash, hid, hexpires⟩
    · obtain ⟨y, hlive, hrest⟩ := h.sound hash k' hk'
      exact ⟨y, live_snoc.mpr (.inr ⟨_, _, hlive, hdeletes y.id, (hsets y.id _ k'.permissions).1.symm,
        (hsets y.id k'.enabled _).2.symm⟩), hrest⟩
  · rcases live_snoc.mp hlive with ⟨hnew, rfl, rfl⟩ | ⟨e, p, hold, -, rfl, rfl⟩
    · rw [hissued] at hnew
      cases hnew
      exact ⟨k, Finmap.lookup_insert _, hid, hexpires, henabled, hpermissions⟩
    · obtain ⟨k', hk', hid', hexpires', henabled', hpermissions'⟩ := h.complete y e p hold
      refine ⟨k', ?_, hid', hexpires', ?_, ?_⟩
      · rw [Finmap.lookup_insert_of_ne _ (hother y e p hold)]
        exact hk'
      · rw [(hsets y.id e p).1, henabled']
      · rw [(hsets y.id e p).2, hpermissions']

theorem Tracks.delete (h : Tracks sha256 keyPrefix calls a) (hfresh : Fresh calls)
    (range : APIKeyRange) (keyID : GoString) :
    Tracks sha256 keyPrefix (calls ++ [.delete range keyID]) (a.deleteAPIKey range keyID).1 := by
  have hlookup : ∀ hash, (a.deleteAPIKey range keyID).1.keys.lookup hash =
      (a.keys.lookup hash).filter fun k => k.id ≠ keyID :=
    fun hash => lookup_delete (h.unique hfresh keyID) hash
  have hsame : (a.deleteAPIKey range keyID).1.keyPrefix = a.keyPrefix := by
    unfold deleteAPIKey
    split <;> rfl
  refine ⟨hsame.trans h.same, fun hash k hk => ?_, fun x e p hlive => ?_⟩
  · rw [hlookup] at hk
    obtain ⟨hold, hother⟩ := Option.filter_eq_some_iff.mp hk
    obtain ⟨x, hlive, hhash, hid, hexpires⟩ := h.sound hash k hold
    have hkept : ¬ (APIKeyCall.delete range keyID).Deletes x.id := fun heq =>
      of_decide_eq_true hother (hid.trans heq.symm)
    exact ⟨x, live_snoc.mpr (.inr ⟨_, _, hlive, hkept, rfl, rfl⟩), hhash, hid, hexpires⟩
  · rcases live_snoc.mp hlive with ⟨hnew, -⟩ | ⟨e, p, hold, hkept, rfl, rfl⟩
    · cases hnew
    · obtain ⟨k, hk, hid, hrest⟩ := h.complete x e p hold
      refine ⟨k, ?_, hid, hrest⟩
      have hother : k.id ≠ keyID := fun heq => hkept (heq.symm.trans hid)
      rw [hlookup, hk]
      simp [Option.filter, hother]

theorem Tracks.step (h : Tracks sha256 keyPrefix calls a) (hfresh : Fresh (calls ++ [call]))
    {T : Set GoString} (hinj : Set.InjOn sha256 T)
    (hT : drawnTexts keyPrefix (calls ++ [call]) ⊆ T) :
    Tracks sha256 keyPrefix (calls ++ [call]) (a.step sha256 call).1 := by
  have hunique := h.unique hfresh.of_append
  cases call with
  | generate name permissions metadata expiresAt random id now =>
    change Tracks _ _ _ (a.generateAPIKey sha256 name permissions metadata expiresAt random id now).1
    unfold generateAPIKey
    by_cases hname : name = []
    · rw [if_pos hname]
      refine h.of_same ?_ (fun _ => not_false) fun _ _ _ => ⟨rfl, rfl⟩
      cases random with
      | error e => rfl
      | ok keyBytes => exact if_pos hname
    · rw [if_neg hname]
      cases random with
      | error e => exact h.of_same rfl (fun _ => not_false) fun _ _ _ => ⟨rfl, rfl⟩
      | ok keyBytes =>
        have hissued : (APIKeyCall.generate name permissions metadata expiresAt (.ok keyBytes) id
            now).issued keyPrefix =
            some ⟨id, keyString keyPrefix keyBytes, permissions, expiresAt⟩ := if_neg hname
        have htext : keyString a.keyPrefix keyBytes = keyString keyPrefix keyBytes := by rw [h.same]
        simp only [htext]
        refine h.insert hfresh hinj hT hissued (fun _ => not_false) (fun _ _ _ => ⟨rfl, rfl⟩)
          ?_ ?_ ?_ ?_
        all_goals rfl
  | validate s now =>
    change Tracks _ _ _ (a.validateAPIKey sha256 s now).1
    have hquiet : Tracks sha256 keyPrefix (calls ++ [.validate s now]) a :=
      h.of_same rfl (fun _ => not_false) fun _ _ _ => ⟨rfl, rfl⟩
    unfold validateAPIKey
    split_ifs
    · exact hquiet
    · cases hk : a.keys.lookup (keyHash sha256 s) with
      | none => exact hquiet
      | some k =>
        simp only
        split_ifs
        · exact hquiet
        · exact hquiet
        · refine h.of_map rfl rfl (fun _ => not_false) fun hash => ?_
          rw [GoMap.lookup_insert_ite]
          split_ifs with hhash
          · refine ⟨fun k => { k with lastUsedAt := some now }, ?_, fun _ => ⟨rfl, rfl, rfl, rfl⟩⟩
            rw [hhash, hk, Option.map_some]
          · exact ⟨fun k => k, Option.map_id'.symm, fun _ => ⟨rfl, rfl, rfl, rfl⟩⟩
  | revoke range keyID =>
    have hsame : (a.revokeAPIKey range keyID).1.keyPrefix = a.keyPrefix := by
      unfold revokeAPIKey change
      split <;> rfl
    refine h.of_map hsame rfl (fun _ => not_false) fun hash =>
      ⟨_, lookup_change (hunique keyID) _ hash, fun k => ?_⟩
    by_cases hid : k.id = keyID
    · simp [hid, APIKeyCall.setsEnabled, APIKeyCall.setsPermissions]
    · simp [hid, Ne.symm hid, APIKeyCall.setsEnabled, APIKeyCall.setsPermissions]
  | delete range keyID => exact h.delete hfresh.of_append range keyID
  | update range keyID name permissions metadata enabled =>
    have hsame : (a.updateAPIKey range keyID name permissions metadata enabled).1.keyPrefix =
        a.keyPrefix := by
      unfold updateAPIKey change
      split <;> rfl
    refine h.of_map hsame ?_ ?_ fun hash => ⟨_, lookup_change (hunique keyID) _ hash, fun k => ?_⟩
    · rfl
    · exact fun _ => not_false
    · by_cases hid : k.id = keyID
      · cases permissions <;> cases enabled <;>
          simp [hid, APIKeyCall.setsEnabled, APIKeyCall.setsPermissions]
      · cases permissions <;> cases enabled <;>
          simp [hid, Ne.symm hid, APIKeyCall.setsEnabled, APIKeyCall.setsPermissions]

theorem tracks_run (hfresh : Fresh calls) {T : Set GoString} (hinj : Set.InjOn sha256 T)
    (hT : drawnTexts (newAPIKeyService keyPrefix).keyPrefix calls ⊆ T) :
    Tracks sha256 (newAPIKeyService keyPrefix).keyPrefix calls
      ((machine sha256).run (newAPIKeyService keyPrefix) calls).1 := by
  induction calls using List.reverseRecOn with
  | nil => exact tracks_new
  | append_singleton calls call ih =>
    have hprefix : drawnTexts (newAPIKeyService keyPrefix).keyPrefix calls ⊆ T := by
      rintro s ⟨c, hc, hd⟩
      exact hT ⟨c, List.mem_append_left _ hc, hd⟩
    rw [Machine.run_snoc]
    exact (ih hfresh.of_append hprefix).step hfresh hinj hT

/-- A validation answers the key under the hash of the text, if it is enabled and has not
expired. -/
theorem validate_ok_iff {s : GoString} {now : Time} {key : APIKey} :
    (a.validateAPIKey sha256 s now).2 = .ok key ↔ s ≠ [] ∧ ∃ k,
      a.keys.lookup (keyHash sha256 s) = some k ∧ k.enabled = true ∧
      (∀ expiresAt ∈ k.expiresAt, now ≤ expiresAt) ∧ key = { k with lastUsedAt := some now } := by
  constructor
  · intro h
    unfold validateAPIKey at h
    split_ifs at h with hs
    refine ⟨hs, ?_⟩
    cases hk : a.keys.lookup (keyHash sha256 s) with
    | none =>
      rw [hk] at h
      cases h
    | some k =>
      rw [hk] at h
      simp only at h
      split_ifs at h with hdisabled hexpired
      cases h
      refine ⟨k, rfl, by simpa using hdisabled, fun expiresAt he => ?_, rfl⟩
      exact not_lt.mp fun hlt => hexpired ⟨expiresAt, he, hlt⟩
  · rintro ⟨hs, k, hk, henabled, hlives, rfl⟩
    have hexpired : ¬ ∃ expiresAt ∈ k.expiresAt, expiresAt < now := by
      rintro ⟨expiresAt, he, hlt⟩
      exact absurd hlt (not_lt.mpr (hlives expiresAt he))
    have hdisabled : ¬ (!k.enabled) = true := by simp [henabled]
    rw [validateAPIKey, if_neg hs, hk]
    simp only [hdisabled, hexpired, Bool.false_eq_true, if_false]

theorem keyPrefix_step (a : APIKeyService) (call : APIKeyCall) :
    (a.step sha256 call).1.keyPrefix = a.keyPrefix := by
  have hchange : ∀ range keyID f, (a.change range keyID f).1.keyPrefix = a.keyPrefix := by
    intro range keyID f
    unfold change
    split <;> rfl
  cases call with
  | generate name permissions metadata expiresAt random id now =>
    simp only [step, generateAPIKey]
    split_ifs
    · rfl
    · cases random <;> rfl
  | validate s now =>
    simp only [step, validateAPIKey]
    split_ifs
    · rfl
    · split
      · rfl
      · split_ifs <;> rfl
  | revoke range keyID => exact hchange range keyID _
  | delete range keyID =>
    simp only [step, deleteAPIKey]
    split <;> rfl
  | update range keyID name permissions metadata enabled => exact hchange range keyID _

/-- The call generates the key and returns its text. -/
def Returns (sha256 : Bytes → Bytes) (a : APIKeyService) (call : APIKeyCall) (s : GoString)
    (key : APIKey) : Prop :=
  (a.step sha256 call).2 = .generated (.ok (s, key))

theorem Returns.issued {call : APIKeyCall} {s : GoString} {key : APIKey}
    (h : a.Returns sha256 call s key) :
    call.issued a.keyPrefix = some ⟨key.id, s, key.permissions, key.expiresAt⟩ := by
  cases call with
  | generate name permissions metadata expiresAt random id now =>
    cases random with
    | error e =>
      simp only [Returns, step, generateAPIKey] at h
      split_ifs at h <;> cases h
    | ok keyBytes =>
      simp only [Returns, step, generateAPIKey, APIKeyCall.issued] at h ⊢
      split_ifs at h ⊢ with hname
      · cases h
      · cases h
        rfl
  | _ => cases h

variable (sha256) in
theorem exists_returns {call : APIKeyCall} (h : call.issued a.keyPrefix = some x) :
    ∃ key, a.Returns sha256 call x.text key ∧ key.id = x.id ∧ key.permissions = x.permissions ∧
      key.expiresAt = x.expiresAt := by
  cases call with
  | generate name permissions metadata expiresAt random id now =>
    cases random with
    | error e => cases h
    | ok keyBytes =>
      simp only [Returns, step, generateAPIKey, APIKeyCall.issued] at h ⊢
      split_ifs at h ⊢ with hname
      cases h
      exact ⟨_, rfl, rfl, rfl, rfl⟩
  | _ => cases h

variable (sha256) in
theorem keyPrefix_run (a : APIKeyService) (calls : List APIKeyCall) :
    ((machine sha256).run a calls).1.keyPrefix = a.keyPrefix := by
  induction calls generalizing a with
  | nil => rfl
  | cons call calls ih =>
    rw [Machine.run_cons]
    exact (ih _).trans (keyPrefix_step a call)

variable (sha256) in
/-- The service after the calls. -/
def after (keyPrefix : GoString) (calls : List APIKeyCall) : APIKeyService :=
  ((machine sha256).run (newAPIKeyService keyPrefix) calls).1

variable (sha256) in
theorem keyPrefix_after (calls : List APIKeyCall) :
    (after sha256 keyPrefix calls).keyPrefix = (newAPIKeyService keyPrefix).keyPrefix :=
  keyPrefix_run sha256 _ calls

/-- A generation returned `s`, the id was not deleted since, its flag was last set to true and
it has not expired at `now`. The permissions are those set last. -/
def Good (sha256 : Bytes → Bytes) (keyPrefix : GoString) (calls : List APIKeyCall) (s : GoString)
    (now : Time) (generated : APIKey) (permissions : List GoString) : Prop :=
  ∃ before call later, calls = before ++ call :: later ∧
    (after sha256 keyPrefix before).Returns sha256 call s generated ∧
    (∀ c ∈ later, ¬ c.Deletes generated.id) ∧
    later.foldl (APIKeyCall.setsEnabled generated.id) true = true ∧
    (∀ expiresAt ∈ generated.expiresAt, now ≤ expiresAt) ∧
    permissions = later.foldl (APIKeyCall.setsPermissions generated.id) generated.permissions

theorem Good.live {s : GoString} {now : Time} {generated : APIKey}
    (h : Good sha256 keyPrefix calls s now generated permissions) :
    Live (newAPIKeyService keyPrefix).keyPrefix calls
      ⟨generated.id, s, generated.permissions, generated.expiresAt⟩ true permissions := by
  obtain ⟨before, call, later, hcalls, hreturns, hdeleted, henabled, -, hpermissions⟩ := h
  have hissued := hreturns.issued
  rw [keyPrefix_after] at hissued
  exact ⟨before, call, later, hcalls, hissued, hdeleted, henabled.symm, hpermissions⟩

variable (sha256) in
theorem exists_good_of_live {now : Time}
    (h : Live (newAPIKeyService keyPrefix).keyPrefix calls x true permissions)
    (hexpires : ∀ expiresAt ∈ x.expiresAt, now ≤ expiresAt) :
    ∃ generated, Good sha256 keyPrefix calls x.text now generated permissions ∧
      generated.id = x.id := by
  obtain ⟨before, call, later, hcalls, hissued, hdeleted, henabled, hpermissions⟩ := h
  rw [← keyPrefix_after sha256 before] at hissued
  obtain ⟨generated, hreturns, hid, hperm, hexp⟩ := exists_returns sha256 hissued
  refine ⟨generated, ⟨before, call, later, hcalls, hreturns, ?_, ?_, ?_, ?_⟩, hid⟩
  · rw [hid]
    exact hdeleted
  · rw [hid]
    exact henabled.symm
  · rw [hexp]
    exact hexpires
  · rw [hid, hperm]
    exact hpermissions

/-- What the texts of the run and `s` hash to tells them apart. -/
theorem Tracks.text_eq (h : Tracks sha256 keyPrefix calls a) {s : GoString}
    (hinj : Set.InjOn sha256 (Insert.insert s (drawnTexts keyPrefix calls))) {k : APIKey}
    (hk : a.keys.lookup (keyHash sha256 s) = some k) :
    ∃ x, Live keyPrefix calls x k.enabled k.permissions ∧ x.text = s ∧ k.id = x.id ∧
      k.expiresAt = x.expiresAt := by
  obtain ⟨x, hlive, hhash, hid, hexpires⟩ := h.sound _ k hk
  obtain ⟨c, hc, hx⟩ := hlive.issued
  obtain ⟨d, hd, -, htext⟩ := APIKeyCall.issued_drawn hx
  have hxs : s = x.text := hinj (Set.mem_insert s _) (Set.mem_insert_of_mem s ⟨c, hc, d, hd, htext⟩)
    (hexEncode_injective hhash)
  exact ⟨x, hlive, hxs.symm, hid, hexpires⟩

theorem keyString_ne_nil (keyPrefix keyBytes : GoString) : keyString keyPrefix keyBytes ≠ [] := by
  have hsep : str "_" ≠ [] := by decide
  intro h
  exact hsep (List.append_eq_nil_iff.mp (List.append_eq_nil_iff.mp h).1).2

/-- A text validates just when it is the text of a good key, and as that key. -/
theorem validate_iff (hfresh : Fresh calls) {s : GoString} (now : Time)
    (hinj : Set.InjOn sha256
      (insert s (drawnTexts (newAPIKeyService keyPrefix).keyPrefix calls)))
    (id : GoString) (permissions : List GoString) :
    (∃ key, ((after sha256 keyPrefix calls).validateAPIKey sha256 s now).2 = .ok key ∧
      key.id = id ∧ key.permissions = permissions) ↔
    ∃ generated, Good sha256 keyPrefix calls s now generated permissions ∧ generated.id = id := by
  have htracks : Tracks sha256 _ calls (after sha256 keyPrefix calls) :=
    tracks_run hfresh hinj (Set.subset_insert s _)
  constructor
  · rintro ⟨key, hok, rfl, rfl⟩
    obtain ⟨-, k, hk, henabled, hexpires, rfl⟩ := validate_ok_iff.mp hok
    obtain ⟨x, hlive, rfl, hid, hexp⟩ := htracks.text_eq hinj hk
    rw [henabled] at hlive
    rw [hexp] at hexpires
    obtain ⟨generated, hgood, hgid⟩ := exists_good_of_live sha256 hlive hexpires
    exact ⟨generated, hgood, hgid.trans hid.symm⟩
  · rintro ⟨generated, hgood, rfl⟩
    have hlive := hgood.live
    obtain ⟨before, call, later, -, -, -, -, hexpires, -⟩ := hgood
    obtain ⟨k, hk, hid, hexp, henabled, hpermissions⟩ := htracks.complete _ _ _ hlive
    obtain ⟨c, -, hissued⟩ := hlive.issued
    obtain ⟨d, -, -, htext⟩ := APIKeyCall.issued_drawn hissued
    have hs : s ≠ [] := fun h => keyString_ne_nil _ d.2 (htext.symm.trans h)
    refine ⟨_, validate_ok_iff.mpr ⟨hs, k, hk, henabled, fun e he => ?_, rfl⟩, hid, hpermissions⟩
    rw [hexp] at he
    exact hexpires e he

/-! ### Operations on other keys -/

theorem validate_congr {a a' : APIKeyService} {s : GoString}
    (h : (a'.keys.lookup (keyHash sha256 s)).map (fun k => { k with lastUsedAt := none }) =
      (a.keys.lookup (keyHash sha256 s)).map fun k => { k with lastUsedAt := none }) (now : Time) :
    (a'.validateAPIKey sha256 s now).2 = (a.validateAPIKey sha256 s now).2 := by
  unfold validateAPIKey
  by_cases hs : s = []
  · rw [if_pos hs, if_pos hs]
  · rw [if_neg hs, if_neg hs]
    cases hk : a.keys.lookup (keyHash sha256 s) with
    | none =>
      rw [hk, Option.map_none, Option.map_eq_none_iff] at h
      rw [h]
    | some k =>
      rw [hk, Option.map_some, Option.map_eq_some_iff] at h
      obtain ⟨k', hk', hsame⟩ := h
      rw [hk']
      simp only [APIKey.mk.injEq] at hsame
      obtain ⟨hid, hname, hhash, hpermissions, hmetadata, hcreated, hexpires, -, henabled⟩ := hsame
      simp only [hid, hname, hhash, hpermissions, hmetadata, hcreated, hexpires, henabled]
      split_ifs <;> rfl

/-- A call for another id leaves what is under the hash of `s` as it is, but for its last use. -/
theorem lookup_step {s : GoString} (hunique : ∀ keyID, a.Unique keyID)
    (hnew : ∀ y, call.issued a.keyPrefix = some y → keyHash sha256 y.text ≠ keyHash sha256 s)
    (hother : ∀ k, a.keys.lookup (keyHash sha256 s) = some k → call.target ≠ some k.id) :
    ((a.step sha256 call).1.keys.lookup (keyHash sha256 s)).map
        (fun k => { k with lastUsedAt := none }) =
      (a.keys.lookup (keyHash sha256 s)).map fun k => { k with lastUsedAt := none } := by
  have hchange : ∀ range keyID f, call.target = some keyID →
      (a.change range keyID f).1.keys.lookup (keyHash sha256 s) =
        a.keys.lookup (keyHash sha256 s) := by
    intro range keyID f htarget
    rw [lookup_change (hunique keyID)]
    cases hk : a.keys.lookup (keyHash sha256 s) with
    | none => rfl
    | some k =>
      have hne : k.id ≠ keyID := fun heq => hother k hk (by rw [htarget, heq])
      rw [Option.map_some, if_neg hne]
  cases call with
  | generate name permissions metadata expiresAt random id now =>
    simp only [step, generateAPIKey]
    split_ifs with hname
    · rfl
    · cases random with
      | error e => rfl
      | ok keyBytes =>
        have hne := hnew _ (if_neg hname)
        simp only
        rw [Finmap.lookup_insert_of_ne _ hne.symm]
  | validate t now =>
    simp only [step, validateAPIKey]
    split_ifs
    · rfl
    · split
      · rfl
      · next k hk =>
        split_ifs
        · rfl
        · rfl
        · simp only
          rw [GoMap.lookup_insert_ite]
          split_ifs with hhash
          · rw [hhash, hk]
            rfl
          · rfl
  | revoke range keyID => exact congrArg _ (hchange range keyID _ rfl)
  | delete range keyID =>
    simp only [step]
    rw [lookup_delete (hunique keyID)]
    cases hk : a.keys.lookup (keyHash sha256 s) with
    | none => rfl
    | some k =>
      have hne : k.id ≠ keyID := fun heq => hother k hk (congrArg some heq.symm)
      simp [Option.filter, hne]
  | update range keyID name permissions metadata enabled =>
    exact congrArg _ (hchange range keyID _ rfl)

/-- In a run, a call that does not manage the id of an issued text leaves its validation. -/
theorem validate_other {generated : APIKey} {s : GoString} {now : Time}
    {before later : List APIKeyCall} {issuing : APIKeyCall}
    (hfresh : Fresh (before ++ issuing :: later ++ [call]))
    (hinj : Set.InjOn sha256 (drawnTexts (newAPIKeyService keyPrefix).keyPrefix
      (before ++ issuing :: later ++ [call])))
    (hreturns : (after sha256 keyPrefix before).Returns sha256 issuing s generated)
    (htarget : call.target ≠ some generated.id) :
    ((after sha256 keyPrefix (before ++ issuing :: later ++ [call])).validateAPIKey sha256 s now).2 =
      ((after sha256 keyPrefix (before ++ issuing :: later)).validateAPIKey sha256 s now).2 := by
  have hissued := hreturns.issued
  rw [keyPrefix_after] at hissued
  obtain ⟨d, hd, hid, htext⟩ := APIKeyCall.issued_drawn hissued
  have hmem : issuing ∈ before ++ issuing :: later :=
    List.mem_append_right _ List.mem_cons_self
  have hs : s ∈ drawnTexts (newAPIKeyService keyPrefix).keyPrefix
      (before ++ issuing :: later ++ [call]) :=
    ⟨issuing, List.mem_append_left _ hmem, d, hd, htext⟩
  have hsub : drawnTexts (newAPIKeyService keyPrefix).keyPrefix (before ++ issuing :: later) ⊆
      drawnTexts (newAPIKeyService keyPrefix).keyPrefix (before ++ issuing :: later ++ [call]) := by
    rintro t ⟨c, hc, hdrawn⟩
    exact ⟨c, List.mem_append_left _ hc, hdrawn⟩
  have htracks : Tracks sha256 _ (before ++ issuing :: later)
      (after sha256 keyPrefix (before ++ issuing :: later)) :=
    tracks_run hfresh.of_append hinj hsub
  have hstep : after sha256 keyPrefix (before ++ issuing :: later ++ [call]) =
      ((after sha256 keyPrefix (before ++ issuing :: later)).step sha256 call).1 := by
    rw [after, Machine.run_snoc]
    rfl
  rw [hstep]
  refine validate_congr (lookup_step (htracks.unique hfresh.of_append) ?_ ?_) now
  · intro y hy hhash
    rw [keyPrefix_after] at hy
    obtain ⟨m, hm, -, hmtext⟩ := APIKeyCall.issued_drawn hy
    have hyT : y.text ∈ drawnTexts (newAPIKeyService keyPrefix).keyPrefix
        (before ++ issuing :: later ++ [call]) :=
      ⟨call, List.mem_append_right _ (List.mem_singleton_self call), m, hm, hmtext⟩
    have hsame : y.text = s := hinj hyT hs (hexEncode_injective hhash)
    exact hfresh.text_ne hm hmem hissued (hsame.symm.trans hmtext)
  · intro k hk hk'
    have hinsert : Insert.insert s (drawnTexts (newAPIKeyService keyPrefix).keyPrefix
        (before ++ issuing :: later)) ⊆ drawnTexts (newAPIKeyService keyPrefix).keyPrefix
          (before ++ issuing :: later ++ [call]) := Set.insert_subset hs hsub
    obtain ⟨x, hlive, hxs, hkid, -⟩ := htracks.text_eq (hinj.mono hinsert) hk
    obtain ⟨c, hc, hx⟩ := hlive.issued
    have hsameid := hfresh.of_append.id_of_text hc hmem hx hissued hxs
    exact htarget (hk'.trans (congrArg some (hkid.trans hsameid)))

/-- In a run with fresh ids and bytes and a hash that tells the texts apart, a text validates
just when it was issued, its id was not deleted since, its flag was last set to true and it has
not expired. It validates as the key of that id with the permissions set last, and a call that
manages another id, validates or generates changes nothing about it. -/
theorem lifecycle (keyPrefix : GoString) (calls : List APIKeyCall) (hfresh : Fresh calls)
    (s : GoString) (now : Time) (hinj : Set.InjOn sha256
      (insert s (drawnTexts (newAPIKeyService keyPrefix).keyPrefix calls))) :
    ((∃ key, ((after sha256 keyPrefix calls).validateAPIKey sha256 s now).2 = .ok key) ↔
      ∃ generated permissions, Good sha256 keyPrefix calls s now generated permissions) ∧
    (∀ key generated permissions,
      ((after sha256 keyPrefix calls).validateAPIKey sha256 s now).2 = .ok key →
      Good sha256 keyPrefix calls s now generated permissions →
      key.id = generated.id ∧ key.permissions = permissions) ∧
    ∀ before issuing between call later generated,
      calls = before ++ issuing :: between ++ call :: later →
      (after sha256 keyPrefix before).Returns sha256 issuing s generated →
      call.target ≠ some generated.id →
      ((after sha256 keyPrefix (before ++ issuing :: between ++ [call])).validateAPIKey sha256 s
          now).2 =
        ((after sha256 keyPrefix (before ++ issuing :: between)).validateAPIKey sha256 s now).2 := by
  have hvalidate := validate_iff hfresh now hinj
  refine ⟨⟨?_, ?_⟩, ?_, ?_⟩
  · rintro ⟨key, hok⟩
    obtain ⟨generated, hgood, -⟩ := (hvalidate _ _).mp ⟨key, hok, rfl, rfl⟩
    exact ⟨generated, _, hgood⟩
  · rintro ⟨generated, permissions, hgood⟩
    obtain ⟨key, hok, -⟩ := (hvalidate _ _).mpr ⟨generated, hgood, rfl⟩
    exact ⟨key, hok⟩
  · intro key generated permissions hok hgood
    obtain ⟨key', hok', hid, hpermissions⟩ := (hvalidate _ _).mpr ⟨generated, hgood, rfl⟩
    cases hok.symm.trans hok'
    exact ⟨hid, hpermissions⟩
  · intro before issuing between call later generated hcalls hreturns htarget
    have hsplit : calls = (before ++ issuing :: between ++ [call]) ++ later := by
      rw [hcalls]
      simp
    rw [hsplit] at hfresh hinj
    refine validate_other hfresh.of_append (hinj.mono ?_) hreturns htarget
    rintro t ⟨c, hc, hdrawn⟩
    exact Set.mem_insert_of_mem s ⟨c, List.mem_append_left _ hc, hdrawn⟩

/-! A key is generated, then it may write instead of read. -/

def sampleText : GoString := keyString (str "konsul") (List.replicate 32 0)

/-- The digest of `sampleText`. -/
def sampleHash (s : Bytes) : Bytes :=
  if s = sampleText then
    [188, 86, 101, 80, 186, 79, 184, 85, 75, 159, 208, 246, 38, 126, 124, 195, 82, 77, 127, 133,
      113, 70, 150, 171, 213, 165, 186, 47, 77, 124, 41, 93]
  else []

def sampleCalls (range : APIKeyRange) : List APIKeyCall :=
  [.generate (str "ci") [str "read"] ∅ none (.ok (List.replicate 32 0)) (str "id-1") 1,
    .update range (str "id-1") [] (some [str "write"]) none none]

theorem lifecycle_updated : ∃ range key,
    ((after sampleHash [] (sampleCalls range)).validateAPIKey sampleHash sampleText 3).2 = .ok key ∧
      key.id = str "id-1" ∧ key.permissions = [str "write"] := by
  let range : APIKeyRange := fun m => Classical.choice inferInstance
  have hfresh : Fresh (sampleCalls range) :=
    ⟨List.nodup_singleton _, List.nodup_singleton _⟩
  have honly : ∀ t ∈ insert sampleText
      (drawnTexts (newAPIKeyService []).keyPrefix (sampleCalls range)), t = sampleText := by
    rintro t (rfl | ⟨c, hc, d, hd, rfl⟩)
    · rfl
    · rcases List.mem_pair.mp hc with rfl | rfl
      · cases hd
        rfl
      · cases hd
  have hinj : Set.InjOn sampleHash
      (insert sampleText (drawnTexts (newAPIKeyService []).keyPrefix (sampleCalls range))) :=
    fun s hs t ht _ => (honly s hs).trans (honly t ht).symm
  have h := lifecycle [] (sampleCalls range) hfresh sampleText 3 hinj
  have hgood : Good sampleHash [] (sampleCalls range) sampleText 3
      { id := str "id-1", name := str "ci", keyHash := keyHash sampleHash sampleText,
        permissions := [str "read"], metadata := ∅, createdAt := 1, expiresAt := none,
        lastUsedAt := none, enabled := true } [str "write"] :=
    ⟨[], _, _, rfl, rfl, by simp [APIKeyCall.Deletes], rfl, nofun, rfl⟩
  obtain ⟨key, hok⟩ := h.1.mpr ⟨_, _, hgood⟩
  exact ⟨range, key, hok, h.2.1 key _ _ hok hgood⟩

end APIKeyService

end Konsul
