import Konsul.Handlers.Policies
import Konsul.Lib.First
import Konsul.Lib.Machine

/-!
# Policies across a restart

A fresh load gives each name the policy of the first file that holds one of that
name. The evaluator and the directory stay in step as long as every change is
`Kept`: saved under a name that the load finds, and with no other file of the
name in its way.
-/

namespace Konsul

open GoLib

namespace ACLHandler

variable (re : Regexp) (policyDir : GoString)

/-- The policy the load reads from a file, if it finds one there. -/
def readFile (path : GoString) (data : Bytes) : Option Policy :=
  if globs policyDir path then (Policy.fromJSON re data).join else none

/-- The policies in the directory, by file. -/
def held (disk : Disk) (path : GoString) : Option Policy :=
  (disk.lookup path).bind (readFile re policyDir path)

/-- No file the load finds panics. -/
def Loads (disk : Disk) : Prop :=
  ∀ path data, disk.lookup path = some data → globs policyDir path → Policy.fromJSON re data ≠ none

variable {re policyDir}

theorem fromJSON_valid {data : Bytes} {policy : Policy}
    (h : Policy.fromJSON re data = some (some policy)) : policy.validate re = some (.ok ()) := by
  unfold Policy.fromJSON at h
  cases hread : Policy.codec.unmarshal data with
  | none =>
    rw [hread] at h
    cases h
  | some p =>
    rw [hread] at h
    dsimp only at h
    cases hvalid : p.validate re with
    | none =>
      rw [hvalid] at h
      cases h
    | some r =>
      cases r with
      | error err =>
        rw [hvalid] at h
        cases h
      | ok u =>
        rw [hvalid] at h
        cases h
        exact hvalid

theorem loadFile_spec (e : Evaluator) (file : Σ _ : GoString, Bytes)
    (h : Policy.fromJSON re file.2 ≠ none) :
    ∃ e', loadFile re e file = some e' ∧ ∀ name, e'.policies.lookup name =
      (e.policies.lookup name).or
        ((Policy.fromJSON re file.2).join.filter fun p => p.name = name) := by
  unfold loadFile
  cases hread : Policy.fromJSON re file.2 with
  | none => exact absurd hread h
  | some r =>
    cases r with
    | none => exact ⟨e, rfl, fun name => (Option.or_none).symm⟩
    | some policy =>
      have hvalid := fromJSON_valid hread
      dsimp only
      rw [Evaluator.addPolicy, hvalid]
      dsimp only
      cases hlookup : e.policies.lookup policy.name with
      | some old =>
        refine ⟨e, rfl, fun name => ?_⟩
        by_cases hname : policy.name = name
        · rw [← hname, hlookup]
          rfl
        · simp only [Option.join_some, Option.filter_some, hname, decide_false, Bool.false_eq_true,
            if_false, Option.or_none]
      | none =>
        refine ⟨_, rfl, fun name => ?_⟩
        simp only [GoMap.lookup_insert_ite, Option.join_some, Option.filter_some, decide_eq_true_eq]
        by_cases hname : policy.name = name
        · rw [if_pos hname.symm, if_pos hname, ← hname, hlookup]
          rfl
        · rw [if_neg (Ne.symm hname), if_neg hname, Option.or_none]

theorem loadFiles_spec (files : List (Σ _ : GoString, Bytes)) (e : Evaluator)
    (h : ∀ file ∈ files, globs policyDir file.1 → Policy.fromJSON re file.2 ≠ none) :
    ∃ e', (files.filter fun file => globs policyDir file.1).foldlM (loadFile re) e = some e' ∧
      ∀ name, e'.policies.lookup name = (e.policies.lookup name).or
        (files.findSome? fun file =>
          (readFile re policyDir file.1 file.2).filter fun p => p.name = name) := by
  induction files generalizing e with
  | nil => exact ⟨e, rfl, fun name => (Option.or_none).symm⟩
  | cons file files ih =>
    have hrest (file' : Σ _ : GoString, Bytes) (hmem : file' ∈ files) :=
      h file' (List.mem_cons_of_mem file hmem)
    by_cases hglob : globs policyDir file.1
    · obtain ⟨e₁, hload, hlookup⟩ := loadFile_spec e file (h file (List.mem_cons_self ..) hglob)
      obtain ⟨e', hloads, hlookups⟩ := ih e₁ hrest
      refine ⟨e', ?_, fun name => ?_⟩
      · rw [List.filter_cons, if_pos hglob, List.foldlM_cons, hload]
        exact hloads
      · rw [hlookups, hlookup, Option.or_assoc, List.findSome?_cons, readFile, if_pos hglob]
        cases (Policy.fromJSON re file.2).join.filter fun p => p.name = name <;> rfl
    · obtain ⟨e', hloads, hlookups⟩ := ih e hrest
      refine ⟨e', ?_, fun name => ?_⟩
      · rw [List.filter_cons, if_neg hglob]
        exact hloads
      · rw [hlookups, List.findSome?_cons, readFile, if_neg hglob]
        rfl

theorem loadPolicies_spec (hdir : policyDir ≠ []) {disk : Disk} (h : Loads re policyDir disk) :
    ∃ e, loadPolicies re policyDir disk .new = some e ∧ ∀ name policy,
      e.policies.lookup name = some policy ↔
        First (held re policyDir disk) (·.name) name policy := by
  have hmem := (GoMap.sorted disk).mem_list_iff
  obtain ⟨e, hload, hlookup⟩ := loadFiles_spec (GoMap.sorted disk).list .new
    fun file hfile => h file.1 file.2 ((hmem file.1 file.2).mp hfile)
  refine ⟨e, (if_neg hdir).trans hload, fun name policy => ?_⟩
  have hnew : Evaluator.new.policies.lookup name = none := Finmap.lookup_empty name
  have hfirst := findSome?_sorted_iff disk (readFile re policyDir) (·.name) name policy
  rw [hlookup, hnew, Option.none_or]
  exact hfirst

theorem loads_of_loadPolicies (hdir : policyDir ≠ []) {disk : Disk} {e e' : Evaluator}
    (h : loadPolicies re policyDir disk e = some e') : Loads re policyDir disk := by
  rw [loadPolicies, if_neg hdir] at h
  intro path data hdata hglob hpanic
  have hfile : (⟨path, data⟩ : Σ _ : GoString, Bytes) ∈
      (GoMap.sorted disk).list.filter fun file => globs policyDir file.1 :=
    List.mem_filter.mpr ⟨((GoMap.sorted disk).mem_list_iff path data).mpr hdata, hglob⟩
  obtain ⟨before, after, hlist⟩ := List.append_of_mem hfile
  rw [hlist, List.foldlM_append] at h
  obtain ⟨e₁, -, hrest⟩ := Option.bind_eq_some_iff.mp h
  rw [List.foldlM_cons] at hrest
  obtain ⟨e₂, hstep, -⟩ := Option.bind_eq_some_iff.mp hrest
  rw [loadFile, hpanic] at hstep
  cases hstep

end ACLHandler

/-! ### Runs -/

inductive PolicyRequest where
  | create (body : Option Policy)
  | update (name : GoString) (body : Option Policy)
  | delete (name : GoString)

/-- A request and what the system answers to its write or removal. -/
structure PolicyCall where
  request : PolicyRequest
  fault : Option GoError

namespace ACLHandler

variable (re : Regexp) (policyDir : GoString)

def requests : Machine PolicyServer PolicyCall PolicyReply where
  step s i :=
    match i.request with
    | .create body => createPolicy re policyDir s body i.fault
    | .update name body => updatePolicy re policyDir s name body i.fault
    | .delete name => deletePolicy policyDir s name i.fault

/-- A fresh load of the directory yields the policies the evaluator holds. -/
def Reloads (s : PolicyServer) : Prop :=
  loadPolicies re policyDir s.disk .new = some s.evaluator

/-- Every other policy is found without the file. -/
def OthersKept (disk : Disk) (file name : GoString) : Prop :=
  ∀ other, other ≠ name → ∀ policy, First (held re policyDir disk) (·.name) other policy →
    First (without (held re policyDir disk) file) (·.name) other policy

/-- The file of the policy can be written, is one the load finds and no other policy
needs, and its text is read back as it was. -/
structure Saves (s : PolicyServer) (policy : Policy) (fault : Option GoError) : Prop where
  written : fault = none
  found : globs policyDir (policyFile policyDir policy.name)
  valid : policy.clean = policy
  others : OthersKept re policyDir s.disk (policyFile policyDir policy.name) policy.name

/-- A policy that is created or updated is saved, and no file read earlier holds one of
its name; a policy that is deleted loses its file, and no other file holds one of its name. -/
def Kept (s : PolicyServer) (i : PolicyCall) : Prop :=
  match i.request with
  | .create (some policy) =>
    policy.validate re = some (.ok ()) → s.evaluator.policies.lookup policy.name = none →
      Saves re policyDir s policy i.fault
  | .update name (some policy) =>
    policy.name = name → policy.validate re = some (.ok ()) →
      s.evaluator.policies.lookup name ≠ none →
      Saves re policyDir s policy i.fault ∧
        ∀ path, path ≤ policyFile policyDir name → path ≠ policyFile policyDir name →
          ∀ p, held re policyDir s.disk path = some p → p.name ≠ name
  | .delete name =>
    s.evaluator.policies.lookup name ≠ none →
      i.fault = none ∧ OthersKept re policyDir s.disk (policyFile policyDir name) name ∧
        ∀ path, path ≠ policyFile policyDir name →
          ∀ p, held re policyDir s.disk path = some p → p.name ≠ name
  | _ => True

variable {re policyDir}

theorem reloads_iff (hdir : policyDir ≠ []) (s : PolicyServer) :
    Reloads re policyDir s ↔ Loads re policyDir s.disk ∧
      ∀ name policy, s.evaluator.policies.lookup name = some policy ↔
        First (held re policyDir s.disk) (·.name) name policy := by
  constructor
  · intro h
    have hloads := loads_of_loadPolicies hdir h
    obtain ⟨e, hload, hlookup⟩ := loadPolicies_spec hdir hloads
    rw [Reloads, hload, Option.some_inj] at h
    exact ⟨hloads, h ▸ hlookup⟩
  · rintro ⟨hloads, hheld⟩
    obtain ⟨e, hload, hlookup⟩ := loadPolicies_spec hdir hloads
    have hpolicies : e.policies = s.evaluator.policies := by
      refine Finmap.ext_lookup fun name => ?_
      refine Option.ext fun policy => ?_
      exact (hlookup name policy).trans (hheld name policy).symm
    have heq : e = s.evaluator := by
      cases e
      exact congrArg Evaluator.mk hpolicies
    rw [Reloads, hload, heq]

theorem Reloads.change (hdir : policyDir ≠ []) {s s' : PolicyServer} (h : Reloads re policyDir s)
    {file name : GoString} (hloads : Loads re policyDir s'.disk)
    (hoff : ∀ path, path ≠ file → held re policyDir s'.disk path = held re policyDir s.disk path)
    (hkey : ∀ p, held re policyDir s'.disk file = some p → p.name = name)
    (hothers : OthersKept re policyDir s.disk file name)
    (hname : ∀ policy, s'.evaluator.policies.lookup name = some policy ↔
      First (held re policyDir s'.disk) (·.name) name policy)
    (hrest : ∀ other, other ≠ name →
      s'.evaluator.policies.lookup other = s.evaluator.policies.lookup other) :
    Reloads re policyDir s' := by
  rw [reloads_iff hdir] at h ⊢
  refine ⟨hloads, fun other policy => ?_⟩
  by_cases hother : other = name
  · rw [hother]
    exact hname policy
  · rw [hrest other hother, h.2 other policy, first_congr_without hoff hkey hother]
    refine ⟨hothers other hother policy, fun hwithout => ?_⟩
    -- the name is held somewhere, and what comes first also does without the file
    obtain ⟨p, -, hp⟩ := id hwithout
    have hheld : held re policyDir s.disk p = some policy := by
      unfold without at hp
      split_ifs at hp
      exact hp
    obtain ⟨w, hw⟩ := exists_first s.disk (readFile re policyDir) (fun p => p.name) hheld
      hwithout.key_eq
    have heq := First.unique (hothers other hother w hw) hwithout
    exact heq ▸ hw

theorem held_insert (disk : Disk) (file path : GoString) (data : Bytes) :
    held re policyDir (disk.insert file data) path =
      if path = file then readFile re policyDir path data else held re policyDir disk path := by
  unfold held
  rw [GoMap.lookup_insert_ite]
  split_ifs
  · rfl
  · rfl

theorem held_erase (disk : Disk) (file path : GoString) :
    held re policyDir (disk.erase file) path =
      if path = file then none else held re policyDir disk path := by
  unfold held
  rw [GoMap.lookup_erase_ite]
  split_ifs
  · rfl
  · rfl

theorem fromJSON_marshalIndent {policy : Policy} (hvalid : policy.validate re = some (.ok ()))
    (hclean : policy.clean = policy) :
    Policy.fromJSON re (Policy.codec.marshalIndent policy) = some (some policy) := by
  rw [Policy.fromJSON, Policy.unmarshal_marshalIndent, hclean]
  dsimp only
  rw [hvalid]

theorem Reloads.save (hdir : policyDir ≠ []) {s : PolicyServer} (h : Reloads re policyDir s)
    {policy : Policy} (hvalid : policy.validate re = some (.ok ())) {fault : Option GoError}
    (hsaves : Saves re policyDir s policy fault)
    (hearlier : ∀ path, path ≤ policyFile policyDir policy.name →
      path ≠ policyFile policyDir policy.name →
        ∀ p, held re policyDir s.disk path = some p → p.name ≠ policy.name) :
    Reloads re policyDir ⟨⟨s.evaluator.policies.insert policy.name policy⟩,
      saved policyDir s.disk policy fault⟩ := by
  have hjson := fromJSON_marshalIndent hvalid hsaves.valid
  have hdisk : saved policyDir s.disk policy fault =
      s.disk.insert (policyFile policyDir policy.name) (Policy.codec.marshalIndent policy) := by
    rw [saved, if_neg hdir, hsaves.written]
    rfl
  have hread : readFile re policyDir (policyFile policyDir policy.name)
      (Policy.codec.marshalIndent policy) = some policy := by
    rw [readFile, if_pos hsaves.found, hjson]
    rfl
  rw [hdisk]
  refine h.change hdir (fun path data hdata hglob => ?_)
    (fun path hpath => (held_insert ..).trans (if_neg hpath)) (fun p hp => ?_) hsaves.others
    (fun p => ?_) fun other hother => ?_
  · rw [GoMap.lookup_insert_ite] at hdata
    split_ifs at hdata with hpath
    · cases hdata
      rw [hjson]
      exact Option.some_ne_none _
    · exact loads_of_loadPolicies hdir h path data hdata hglob
  · rw [held_insert, if_pos rfl, hread, Option.some_inj] at hp
    rw [← hp]
  · have hfirst : First (held re policyDir
        (s.disk.insert (policyFile policyDir policy.name) (Policy.codec.marshalIndent policy)))
        (·.name) policy.name policy := by
      have hself := (@held_insert re policyDir s.disk (policyFile policyDir policy.name)
        (policyFile policyDir policy.name) (Policy.codec.marshalIndent policy)).trans
        ((if_pos rfl).trans hread)
      refine ⟨_, ⟨⟨policy, hself, rfl⟩, fun path hle hne q hq => ?_⟩, hself⟩
      rw [held_insert, if_neg hne] at hq
      exact hearlier path hle hne q hq
    rw [GoMap.lookup_insert_ite, if_pos rfl, Option.some_inj]
    exact ⟨fun heq => heq ▸ hfirst, fun hp => hfirst.unique hp⟩
  · rw [GoMap.lookup_insert_ite, if_neg hother]

theorem Reloads.remove (hdir : policyDir ≠ []) {s : PolicyServer} (h : Reloads re policyDir s)
    {name : GoString} (hothers : OthersKept re policyDir s.disk (policyFile policyDir name) name)
    (hnone : ∀ path, path ≠ policyFile policyDir name →
      ∀ p, held re policyDir s.disk path = some p → p.name ≠ name) :
    Reloads re policyDir ⟨⟨s.evaluator.policies.erase name⟩,
      s.disk.erase (policyFile policyDir name)⟩ := by
  refine h.change hdir (fun path data hdata hglob => ?_)
    (fun path hpath => (held_erase ..).trans (if_neg hpath)) (fun p hp => ?_) hothers
    (fun p => ?_) fun other hother => ?_
  · rw [GoMap.lookup_erase_ite] at hdata
    split_ifs at hdata with hpath
    exact loads_of_loadPolicies hdir h path data hdata hglob
  · rw [held_erase, if_pos rfl] at hp
    cases hp
  · rw [GoMap.lookup_erase_ite, if_pos rfl]
    refine iff_of_false (fun hp => nomatch hp) ?_
    rintro ⟨path, ⟨⟨q, hq, hkey⟩, -⟩, -⟩
    rw [held_erase] at hq
    split_ifs at hq with hpath
    exact hnone path hpath q hq hkey
  · rw [GoMap.lookup_erase_ite, if_neg hother]

/-! ### One request -/

theorem createPolicy_kept (hdir : policyDir ≠ []) {s : PolicyServer}
    (h : Reloads re policyDir s) (body : Option Policy) (fault : Option GoError)
    (hkept : Kept re policyDir s ⟨.create body, fault⟩) :
    Reloads re policyDir (createPolicy re policyDir s body fault).1 := by
  rcases createPolicy_cases re policyDir s fault body with
    hsame | ⟨policy, rfl, hvalid, hlookup, hcreated⟩
  · rw [hsame]
    exact h
  · rw [hcreated]
    refine h.save hdir hvalid (hkept hvalid hlookup) fun path _ _ p hp hname => ?_
    obtain ⟨w, hw⟩ := exists_first s.disk (readFile re policyDir) (fun p => p.name) hp hname
    have hheld := (((reloads_iff hdir s).mp h).2 policy.name w).mpr hw
    rw [hlookup] at hheld
    cases hheld

theorem updatePolicy_kept (hdir : policyDir ≠ []) {s : PolicyServer}
    (h : Reloads re policyDir s) (name : GoString) (body : Option Policy) (fault : Option GoError)
    (hkept : Kept re policyDir s ⟨.update name body, fault⟩) :
    Reloads re policyDir (updatePolicy re policyDir s name body fault).1 := by
  rcases updatePolicy_cases re policyDir s fault name body with
    hsame | ⟨policy, rfl, rfl, hvalid, hheld, hupdated⟩
  · rw [hsame]
    exact h
  · rw [hupdated]
    obtain ⟨hsaves, hearlier⟩ := hkept rfl hvalid hheld
    exact h.save hdir hvalid hsaves hearlier

theorem deletePolicy_kept (hdir : policyDir ≠ []) {s : PolicyServer}
    (h : Reloads re policyDir s) (name : GoString) (fault : Option GoError)
    (hkept : Kept re policyDir s ⟨.delete name, fault⟩) :
    Reloads re policyDir (deletePolicy policyDir s name fault).1 := by
  rcases deletePolicy_cases policyDir s fault name with hsame | ⟨hheld, hdeleted⟩
  · rw [hsame]
    exact h
  · obtain ⟨hfault, hothers, hnone⟩ := hkept hheld
    dsimp only at hfault
    rw [hdeleted, if_neg hdir, hfault]
    exact h.remove hdir hothers hnone

theorem reloads_step (hdir : policyDir ≠ []) (s : PolicyServer) (i : PolicyCall)
    (h : Reloads re policyDir s) (hkept : Kept re policyDir s i) :
    Reloads re policyDir ((requests re policyDir).step s i).1 := by
  obtain ⟨request, fault⟩ := i
  cases request with
  | create body => exact createPolicy_kept hdir h body fault hkept
  | update name body => exact updatePolicy_kept hdir h name body fault hkept
  | delete name => exact deletePolicy_kept hdir h name fault hkept

/-- A server started from a directory and run with every change kept: a fresh load of
the directory yields the policies it holds, in every state it reaches. -/
theorem policies_survive_restart (re : Regexp) {policyDir : GoString} (hdir : policyDir ≠ [])
    (disk : Disk) {e : Evaluator} (hstart : loadPolicies re policyDir disk .new = some e)
    (run : List PolicyCall) (hkept : (requests re policyDir).Along (Kept re policyDir) ⟨e, disk⟩ run)
    (n : ℕ) : Reloads re policyDir ((requests re policyDir).run ⟨e, disk⟩ (run.take n)).1 := by
  have hprefix : (requests re policyDir).Along (Kept re policyDir) ⟨e, disk⟩ (run.take n) := by
    rw [← List.take_append_drop n run, Machine.along_append] at hkept
    exact hkept.1
  have hinit : Reloads re policyDir ⟨e, disk⟩ := hstart
  exact Machine.invariant _ (fun s i h hi => reloads_step hdir s i h hi) hinit hprefix

def opsPolicy : Policy :=
  { name := str "ops", description := str "operators", kv := [], service := [], health := []
    backup := [], admin := [⟨[Capability.read]⟩] }

def noRegexp : Regexp := ⟨fun _ => true, fun _ _ => false⟩

def policies : GoString := str "policies"

def createOps : PolicyCall := ⟨.create (some opsPolicy), none⟩

def deleteOps : PolicyCall := ⟨.delete (str "ops"), none⟩

theorem held_empty (path : GoString) : held re policyDir ∅ path = none := by
  rw [held, Finmap.lookup_empty]
  rfl

def opsFile : GoString := policyFile policies (str "ops")

theorem held_opsFile {path : GoString} {p : Policy}
    (h : held noRegexp policies ((∅ : Disk).insert opsFile (Policy.codec.marshalIndent opsPolicy))
      path = some p) : path = opsFile ∧ p = opsPolicy := by
  rw [held_insert] at h
  split_ifs at h with hpath
  · have hread := @fromJSON_marshalIndent noRegexp opsPolicy rfl rfl
    have hglob : globs policies path = true := by
      rw [hpath]
      decide
    rw [readFile, if_pos hglob, hread] at h
    cases h
    exact ⟨hpath, rfl⟩
  · rw [held_empty] at h
    cases h

/-- A policy created and deleted again is gone after a restart. -/
theorem policies_survive_restart_deleted :
    Reloads noRegexp policies
      ((requests noRegexp policies).run ⟨.new, ∅⟩ ([createOps, deleteOps].take 2)).1 := by
  have hstart : loadPolicies noRegexp policies ∅ .new = some .new := rfl
  refine policies_survive_restart noRegexp (by decide) ∅ hstart [createOps, deleteOps]
    ⟨fun _ _ => ⟨rfl, by decide, rfl, ?_⟩, fun _ => ⟨rfl, ?_, ?_⟩, trivial⟩ 2
  · rintro other - policy ⟨path, -, hpath⟩
    rw [held_empty] at hpath
    cases hpath
  · rintro other hother policy hfirst
    obtain ⟨path, -, hpath⟩ := id hfirst
    obtain ⟨-, rfl⟩ := held_opsFile hpath
    exact absurd hfirst.key_eq.symm hother
  · intro path hne p hp
    exact absurd (held_opsFile hp).1 hne

/-- A directory that keeps the policy in a file of another name. -/
def misnamed : Disk :=
  (∅ : Disk).insert (str "policies/old.json") (Policy.codec.marshalIndent opsPolicy)

/-- The policy is loaded, deleted, and there again after a restart. -/
theorem misnamed_policy_returns :
    ∃ e s, loadPolicies noRegexp policies misnamed .new = some e ∧
      deletePolicy policies ⟨e, misnamed⟩ (str "ops") none = (s, .deleted (str "ops")) ∧
      ¬ Reloads noRegexp policies s := by
  have hdir : policies ≠ [] := by decide
  have hread : held noRegexp policies misnamed (str "policies/old.json") = some opsPolicy := by
    have hjson := @fromJSON_marshalIndent noRegexp opsPolicy rfl rfl
    have hglob : globs policies (str "policies/old.json") = true := by decide
    rw [misnamed, held_insert, if_pos rfl, readFile, if_pos hglob, hjson]
    rfl
  have honly : ∀ path p, held noRegexp policies misnamed path = some p →
      path = str "policies/old.json" := by
    intro path p h
    rw [misnamed, held_insert] at h
    split_ifs at h with hpath
    · exact hpath
    · rw [held_empty] at h
      cases h
  have hloads : Loads noRegexp policies misnamed := by
    intro path data hdata _ hpanic
    rw [misnamed, GoMap.lookup_insert_ite] at hdata
    split_ifs at hdata with hpath
    · cases hdata
      rw [@fromJSON_marshalIndent noRegexp opsPolicy rfl rfl] at hpanic
      cases hpanic
    · rw [Finmap.lookup_empty] at hdata
      cases hdata
  have hfirst : First (held noRegexp policies misnamed) (·.name) (str "ops") opsPolicy :=
    ⟨_, ⟨⟨opsPolicy, hread, rfl⟩, fun q _ hq p hp => absurd (honly q p hp) hq⟩, hread⟩
  obtain ⟨e, hload, hlookup⟩ := loadPolicies_spec hdir hloads
  have hops : e.policies.lookup (str "ops") = some opsPolicy := (hlookup _ _).mpr hfirst
  have hkeeps : misnamed.erase (policyFile policies (str "ops")) = misnamed := by
    refine Finmap.ext_lookup fun path => ?_
    rw [GoMap.lookup_erase_ite]
    split_ifs with hpath
    · have hne : path ≠ str "policies/old.json" := by
        rw [hpath]
        decide
      rw [misnamed, GoMap.lookup_insert_ite, if_neg hne, Finmap.lookup_empty]
    · rfl
  refine ⟨e, ⟨⟨e.policies.erase (str "ops")⟩, misnamed⟩, hload, ?_, fun hreloads => ?_⟩
  · simp only [deletePolicy, Evaluator.deletePolicy, hops, if_neg hdir, removePolicyFile, hkeeps]
  · have hback := (((reloads_iff hdir _).mp hreloads).2 (str "ops") opsPolicy).mpr hfirst
    rw [GoMap.lookup_erase_ite, if_pos rfl] at hback
    cases hback

end ACLHandler

end Konsul
