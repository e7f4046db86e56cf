import Konsul.Store.Service

/-!
# Which checks a manager lists for a service

A check is compared without what a probe, a TTL update or the passing of time
changes. `Replaces` says when the checks of a registration, added one by one,
become the checks listed for its service, and those of the others stay.
-/

namespace Konsul

open GoLib
open ServiceStore (addChecks)

/-- `ListChecks` writes to a TTL check that has passed its time. -/
def Check.expire (c : Check) (now : Time) : Check :=
  if c.type = .ttl ∧ ∃ t ∈ c.expiresAt, t < now then
    { c with status := .critical, output := str "TTL expired" }
  else c

/-- What stays of a check for as long as it is registered. -/
def Check.fixed (c : Check) : Check :=
  { c with status := .critical, output := [], lastCheck := 0, expiresAt := none }

/-- The fixed part of the check a definition asks for. -/
def CheckDefinition.check (parse : GoString → Option Duration) (d : CheckDefinition) : Check :=
  (Manager.newCheck { now := 0, newUUID := fun _ => [], parseDuration := parse } d).fixed

@[simp] theorem Check.expire_fixed (c : Check) (now : Time) : (c.expire now).fixed = c.fixed := by
  unfold expire
  split_ifs <;> rfl

@[simp] theorem Check.expire_serviceID (c : Check) (now : Time) :
    (c.expire now).serviceID = c.serviceID := by
  unfold expire
  split_ifs <;> rfl

theorem Check.serviceID_of_fixed {c c' : Check} (h : c.fixed = c'.fixed) :
    c.serviceID = c'.serviceID := by
  have := congrArg Check.serviceID h
  exact this

theorem Check.id_of_fixed {c c' : Check} (h : c.fixed = c'.fixed) : c.id = c'.id := by
  have := congrArg Check.id h
  exact this

namespace Manager

/-- `ListChecks`: the checks it passes over are written to under the read lock. -/
def listChecks (m : Manager) (now : Time) (range : m.checks.Order) : Manager × List Check :=
  ({ checks := m.checks.mapVal fun _ c => c.expire now }, range.list.map fun e => e.2.expire now)

theorem newCheck_fixed (env : Env) (d : CheckDefinition) :
    (newCheck env d).fixed = d.check env.parseDuration := rfl

/-- Every check is kept under its identifier. -/
def Keyed (m : Manager) : Prop := ∀ id c, m.checks.lookup id = some c → c.id = id

/-- The identifier of a check of the service. -/
def Owned (m : Manager) (name id : GoString) : Prop :=
  ∃ c, m.checks.lookup id = some c ∧ c.serviceID = name

/-- `c` is the fixed part of a check of the service. -/
def Lists (m : Manager) (name : GoString) (c : Check) : Prop :=
  ∃ id c', m.checks.lookup id = some c' ∧ c'.serviceID = name ∧ c'.fixed = c

theorem lists_iff_owned (m : Manager) (name : GoString) :
    (∃ c, m.Lists name c) ↔ ∃ id, m.Owned name id := by
  constructor
  · rintro ⟨c, id, c', hlookup, hname, -⟩
    exact ⟨id, c', hlookup, hname⟩
  · rintro ⟨id, c, hlookup, hname⟩
    exact ⟨c.fixed, id, c, hlookup, hname, rfl⟩

/-- What a caller of `ListChecks` that picks the checks of one service sees. -/
theorem mem_listed_iff (m : Manager) (now : Time) (range : m.checks.Order) (name : GoString)
    (c : Check) :
    c ∈ (((m.listChecks now range).2.filter (·.serviceID = name)).map Check.fixed) ↔
      m.Lists name c := by
  simp only [listChecks, List.mem_map, List.mem_filter, decide_eq_true_eq]
  constructor
  · rintro ⟨_, ⟨⟨e, he, rfl⟩, hname⟩, rfl⟩
    rw [Check.expire_serviceID] at hname
    exact ⟨e.1, e.2, (range.mem_list_iff e.1 e.2).mp he, hname, (e.2.expire_fixed now).symm⟩
  · rintro ⟨id, c', hlookup, hname, rfl⟩
    refine ⟨c'.expire now, ⟨⟨⟨id, c'⟩, (range.mem_list_iff id c').mpr hlookup, rfl⟩, ?_⟩,
      c'.expire_fixed now⟩
    rw [Check.expire_serviceID]
    exact hname

/-! ### Adding checks -/

section AddChecks

variable {m : Manager} {env : Env} {checks : List CheckDefinition}

theorem addCheck_keyed (h : m.Keyed) (d : CheckDefinition) : (m.addCheck env d).Keyed := by
  intro id c hlookup
  simp only [addCheck, GoMap.lookup_insert_ite] at hlookup
  split_ifs at hlookup with hid
  · cases hlookup
    exact hid.symm
  · exact h id c hlookup

theorem addChecks_keyed (h : m.Keyed) : (addChecks m env checks).Keyed := by
  induction checks generalizing m with
  | nil => exact h
  | cons d checks ih => exact ih (addCheck_keyed h d)

theorem lookup_addChecks_of_notMem {id : GoString} (h : id ∉ checks.map CheckDefinition.id) :
    (addChecks m env checks).checks.lookup id = m.checks.lookup id := by
  induction checks generalizing m with
  | nil => rfl
  | cons d checks ih =>
    rw [List.map_cons, List.mem_cons, not_or] at h
    have hrest : (addChecks (m.addCheck env d) env checks).checks.lookup id =
        (m.addCheck env d).checks.lookup id := ih h.2
    have hfirst : (m.addCheck env d).checks.lookup id = m.checks.lookup id := by
      simp only [addCheck, GoMap.lookup_insert_ite, if_neg h.1]
    exact hrest.trans hfirst

/-- Under an identifier that a definition has there is the check of one that has it. -/
theorem lookup_addChecks_of_mem {id : GoString} (h : id ∈ checks.map CheckDefinition.id) :
    ∃ d ∈ checks, d.id = id ∧
      (addChecks m env checks).checks.lookup id = some (newCheck env d) := by
  induction checks generalizing m with
  | nil => cases h
  | cons d checks ih =>
    by_cases hrest : id ∈ checks.map CheckDefinition.id
    · obtain ⟨d', hd', hid, hlookup⟩ := @ih (m.addCheck env d) hrest
      exact ⟨d', List.mem_cons_of_mem d hd', hid, hlookup⟩
    · rw [List.map_cons, List.mem_cons, or_iff_left hrest] at h
      have hkept := @lookup_addChecks_of_notMem (m.addCheck env d) env checks id hrest
      refine ⟨d, List.mem_cons_self .., h.symm, hkept.trans ?_⟩
      simp only [addCheck, GoMap.lookup_insert_ite, if_pos h]

end AddChecks

/-! ### When the checks added are the checks listed -/

/-- The checks are the service's own, those that share an identifier are the same, every
check the service had gives way to one of them, and no other service's does. -/
structure Replaces (m : Manager) (parse : GoString → Option Duration) (name : GoString)
    (checks : List CheckDefinition) : Prop where
  own : ∀ d ∈ checks, d.serviceID = name
  agree : ∀ d ∈ checks, ∀ d' ∈ checks, d.id = d'.id → d.check parse = d'.check parse
  replaced : ∀ id, m.Owned name id → id ∈ checks.map CheckDefinition.id
  spared : ∀ id ∈ checks.map CheckDefinition.id, ∀ other, m.Owned other id → other = name

section Replaces

variable {m : Manager} {env : Env} {name : GoString} {checks : List CheckDefinition}

theorem Replaces.lists_own (h : m.Replaces env.parseDuration name checks) (c : Check) :
    (addChecks m env checks).Lists name c ↔
      c ∈ checks.map (CheckDefinition.check env.parseDuration) := by
  constructor
  · rintro ⟨id, c', hlookup, hname, rfl⟩
    by_cases hid : id ∈ checks.map CheckDefinition.id
    · obtain ⟨d, hd, -, hnew⟩ := @lookup_addChecks_of_mem m env checks id hid
      rw [hnew, Option.some_inj] at hlookup
      rw [← hlookup, newCheck_fixed]
      exact List.mem_map_of_mem hd
    · rw [lookup_addChecks_of_notMem hid] at hlookup
      exact absurd (h.replaced id ⟨c', hlookup, hname⟩) hid
  · intro hc
    obtain ⟨d, hd, rfl⟩ := List.mem_map.mp hc
    obtain ⟨d', hd', hid, hnew⟩ :=
      @lookup_addChecks_of_mem m env checks d.id (List.mem_map_of_mem hd)
    refine ⟨d.id, newCheck env d', hnew, h.own d' hd', ?_⟩
    rw [newCheck_fixed]
    exact h.agree d' hd' d hd hid

theorem Replaces.lists_other (h : m.Replaces env.parseDuration name checks) {other : GoString}
    (hother : other ≠ name) (c : Check) :
    (addChecks m env checks).Lists other c ↔ m.Lists other c := by
  constructor
  · rintro ⟨id, c', hlookup, hname, rfl⟩
    by_cases hid : id ∈ checks.map CheckDefinition.id
    · obtain ⟨d, hd, -, hnew⟩ := @lookup_addChecks_of_mem m env checks id hid
      rw [hnew, Option.some_inj] at hlookup
      have hown : c'.serviceID = name := hlookup ▸ h.own d hd
      exact absurd (hname.symm.trans hown) hother
    · rw [lookup_addChecks_of_notMem hid] at hlookup
      exact ⟨id, c', hlookup, hname, rfl⟩
  · rintro ⟨id, c', hlookup, hname, rfl⟩
    have hid : id ∉ checks.map CheckDefinition.id :=
      fun hid => hother (h.spared id hid other ⟨c', hlookup, hname⟩)
    exact ⟨id, c', (lookup_addChecks_of_notMem hid).trans hlookup, hname, rfl⟩

theorem replaces_of_lists (hkeyed : m.Keyed)
    (hown : ∀ c, (addChecks m env checks).Lists name c ↔
      c ∈ checks.map (CheckDefinition.check env.parseDuration))
    (hother : ∀ other ≠ name, ∀ c, (addChecks m env checks).Lists other c ↔ m.Lists other c) :
    m.Replaces env.parseDuration name checks := by
  have hkeyed' : (addChecks m env checks).Keyed := addChecks_keyed hkeyed
  have hlisted (d : CheckDefinition) (hd : d ∈ checks) :
      (addChecks m env checks).Lists name (d.check env.parseDuration) :=
    (hown _).mpr (List.mem_map_of_mem hd)
  have howner (d : CheckDefinition) (hd : d ∈ checks) : d.serviceID = name := by
    obtain ⟨id, c, -, hname, hfixed⟩ := hlisted d hd
    have heq : c.serviceID = d.serviceID := congrArg Check.serviceID hfixed
    exact heq.symm.trans hname
  refine ⟨howner, fun d hd d' hd' hid => ?_, fun id howned => ?_, fun id hid other howned => ?_⟩
  · obtain ⟨k, c, hlookup, -, hfixed⟩ := hlisted d hd
    obtain ⟨k', c', hlookup', -, hfixed'⟩ := hlisted d' hd'
    have hk : k = d.id := (hkeyed' k c hlookup).symm.trans (congrArg Check.id hfixed)
    have hk' : k' = d'.id := (hkeyed' k' c' hlookup').symm.trans (congrArg Check.id hfixed')
    have hc : c = c' := by
      rw [hk, hid, ← hk', hlookup', Option.some_inj] at hlookup
      exact hlookup.symm
    rw [← hfixed, ← hfixed', hc]
  · by_contra hid
    obtain ⟨c, hlookup, hname⟩ := howned
    have hstays : (addChecks m env checks).Lists name c.fixed :=
      ⟨id, c, (lookup_addChecks_of_notMem hid).trans hlookup, hname, rfl⟩
    obtain ⟨d, hd, hfixed⟩ := List.mem_map.mp ((hown _).mp hstays)
    have hdid : d.id = id := (congrArg Check.id hfixed).trans (hkeyed id c hlookup)
    exact hid (List.mem_map.mpr ⟨d, hd, hdid⟩)
  · by_contra hne
    obtain ⟨c, hlookup, hname⟩ := howned
    obtain ⟨id', c', hlookup', hname', hfixed⟩ :=
      (hother other hne c.fixed).mpr ⟨id, c, hlookup, hname, rfl⟩
    have hsame : id' = id :=
      (hkeyed' id' c' hlookup').symm.trans ((Check.id_of_fixed hfixed).trans (hkeyed id c hlookup))
    rw [hsame] at hlookup'
    obtain ⟨d, hd, -, hnew⟩ := @lookup_addChecks_of_mem m env checks id hid
    rw [hnew, Option.some_inj] at hlookup'
    have howned : c'.serviceID = name := hlookup' ▸ howner d hd
    exact hne (hname'.symm.trans howned)

end Replaces

end Manager

end Konsul
