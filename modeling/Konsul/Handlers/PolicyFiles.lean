import Konsul.Handlers.PolicyReload
import Konsul.Lib.CleanPath

/-!
# Where policy files are

The file of a policy is found by cleaning the directory and the name together, and no
name is refused for what it contains. What stands before the last slash of a name is a
path of its own, which may lead out of the directory or back to it.
-/

namespace Konsul

open GoLib

/-- What a name has before its last slash; nothing where it has none. -/
def filepathDir (name : GoString) : GoString := join Path.slash (split Path.slash name).dropLast

/-- The name a request is about; a body that is no policy has none. -/
def PolicyRequest.policyName : PolicyRequest → Option GoString
  | .create body => body.map Policy.name
  | .update name _ => some name
  | .delete name => some name

namespace ACLHandler

section

variable (re : Regexp) (policyDir : GoString)

/-- A server that was started from a directory and has run comes to write or remove the
file at `path` on a request about `name`. -/
def Changes (name path : GoString) : Prop :=
  ∃ (disk : Disk) (e : Evaluator) (run : List PolicyCall) (i : PolicyCall),
    loadPolicies re policyDir disk .new = some e ∧ i.request.policyName = some name ∧
      let s := ((requests re policyDir).run ⟨e, disk⟩ run).1
      ((requests re policyDir).step s i).1.disk.lookup path ≠ s.disk.lookup path

end

variable (policyDir : GoString)

/-- The path is one element below the directory. -/
def DirectChild (path : GoString) : Prop :=
  ∃ base, Path.IsElement base ∧ base ≠ Path.dotdot ∧ path = filepathJoin policyDir base

/-- What the name has before its last slash leads back to the directory. -/
def Stays (name : GoString) : Prop :=
  filepathJoin policyDir (filepathDir name) = Path.clean policyDir

/-- The stack the directory leads to. -/
def dirStack : List Bytes :=
  Path.kept (hasPrefix policyDir [Path.slash]) [] policyDir

/-- The stack the directory and the part of a name before its last slash lead to. -/
def nameStack (name : GoString) : List Bytes :=
  (split Path.slash name).dropLast.foldl (Path.cleanElem (hasPrefix policyDir [Path.slash]))
    (dirStack policyDir)

/-- The files of two names are in the directory, and are two files. -/
structure Apart (re : Regexp) (policyDir name other : GoString) : Prop where
  child : ∀ path, Changes re policyDir name path → DirectChild policyDir path
  childOther : ∀ path, Changes re policyDir other path → DirectChild policyDir path
  injective : ∀ path, Changes re policyDir name path → Changes re policyDir other path →
    name = other

variable {policyDir}

theorem split_name (name : GoString) :
    split Path.slash name = (split Path.slash name).dropLast ++ [filepathBase name] := by
  have hne := split_ne_nil Path.slash name
  rw [filepathBase, List.getLast?_eq_getLast_of_ne_nil hne, Option.getD_some,
    List.dropLast_append_getLast]

theorem notMem_of_mem_dropLast {name w : GoString} (h : w ∈ (split Path.slash name).dropLast) :
    Path.slash ∉ w :=
  notMem_of_mem_split (List.dropLast_subset _ h)

theorem isElement_dirStack : ∀ w ∈ dirStack policyDir, Path.IsElement w :=
  Path.isElement_kept (fun _ hw => absurd hw List.not_mem_nil) policyDir

theorem isElement_nameStack (name : GoString) : ∀ w ∈ nameStack policyDir name, Path.IsElement w :=
  Path.isElement_foldl (fun _ he => notMem_of_mem_dropLast he) isElement_dirStack

theorem filepathJoin_eq (hdir : policyDir ≠ []) (file : GoString) :
    filepathJoin policyDir file = Path.render (hasPrefix policyDir [Path.slash])
      (Path.kept (hasPrefix policyDir [Path.slash]) (dirStack policyDir) file) :=
  Path.clean_append hdir file

theorem filepathJoin_element (hdir : policyDir ≠ []) {base : GoString} (h : Path.IsElement base)
    (hdotdot : base ≠ Path.dotdot) :
    filepathJoin policyDir base =
      Path.render (hasPrefix policyDir [Path.slash]) (base :: dirStack policyDir) := by
  rw [filepathJoin_eq hdir, Path.kept, split_of_notMem h.noSlash, List.foldl_cons, List.foldl_nil,
    Path.cleanElem_of_isElement h hdotdot]

/-- The last element of the file: longer than any with a meaning of its own. -/
theorem isElement_json {leaf : GoString} (h : Path.slash ∉ leaf) :
    Path.IsElement (leaf ++ str ".json") ∧ leaf ++ str ".json" ≠ Path.dotdot := by
  have hlength : 4 < (leaf ++ str ".json").length := by
    have hjson : (str ".json").length = 5 := by decide
    rw [List.length_append, hjson]
    omega
  have hslash : Path.slash ∉ leaf ++ str ".json" := by
    rw [List.mem_append, not_or]
    exact ⟨h, by decide⟩
  refine ⟨Path.isElement_of_length (by omega) hslash, fun heq => ?_⟩
  rw [heq] at hlength
  exact absurd hlength (by decide)

theorem notMem_filepathBase (name : GoString) : Path.slash ∉ filepathBase name := by
  refine @notMem_of_mem_split Path.slash name _ ?_
  rw [split_name]
  exact List.mem_append_right _ (List.mem_singleton_self _)

theorem policyFile_eq (hdir : policyDir ≠ []) (name : GoString) :
    policyFile policyDir name = Path.render (hasPrefix policyDir [Path.slash])
      ((filepathBase name ++ str ".json") :: nameStack policyDir name) := by
  obtain ⟨helement, hdotdot⟩ := isElement_json (notMem_filepathBase name)
  have hsplit : split Path.slash (name ++ str ".json") =
      (split Path.slash name).dropLast ++ [filepathBase name ++ str ".json"] :=
    split_append_of_notMem (split_name name) (by decide)
  rw [policyFile, filepathJoin_eq hdir, Path.kept, hsplit, List.foldl_append, List.foldl_cons,
    List.foldl_nil, Path.cleanElem_of_isElement helement hdotdot]
  rfl

theorem isElement_file (name : GoString) :
    ∀ w ∈ (filepathBase name ++ str ".json") :: nameStack policyDir name, Path.IsElement w := by
  intro w hw
  rcases List.mem_cons.mp hw with rfl | hw
  · exact (isElement_json (notMem_filepathBase name)).1
  · exact isElement_nameStack name w hw

theorem stays_iff (hdir : policyDir ≠ []) (name : GoString) :
    Stays policyDir name ↔ nameStack policyDir name = dirStack policyDir := by
  have hkept : Path.kept (hasPrefix policyDir [Path.slash]) (dirStack policyDir)
      (filepathDir name) = nameStack policyDir name :=
    Path.kept_join fun _ he => notMem_of_mem_dropLast he
  rw [Stays, filepathJoin_eq hdir, hkept]
  constructor
  · intro h
    exact Path.render_injective (isElement_nameStack name) isElement_dirStack h
  · intro h
    rw [h]
    rfl

theorem directChild_iff (hdir : policyDir ≠ []) (name : GoString) :
    DirectChild policyDir (policyFile policyDir name) ↔ Stays policyDir name := by
  rw [stays_iff hdir]
  constructor
  · rintro ⟨base, helement, hdotdot, hfile⟩
    rw [policyFile_eq hdir, filepathJoin_element hdir helement hdotdot] at hfile
    have hbase : ∀ w ∈ base :: dirStack policyDir, Path.IsElement w := by
      intro w hw
      rcases List.mem_cons.mp hw with rfl | hw
      · exact helement
      · exact isElement_dirStack w hw
    exact (List.cons.inj (Path.render_injective (isElement_file name) hbase hfile)).2
  · intro h
    obtain ⟨helement, hdotdot⟩ := isElement_json (notMem_filepathBase name)
    refine ⟨_, helement, hdotdot, ?_⟩
    rw [policyFile_eq hdir, h, filepathJoin_element hdir helement hdotdot]

theorem policyFile_eq_iff (hdir : policyDir ≠ []) {name other : GoString}
    (h : Stays policyDir name) (h' : Stays policyDir other) :
    policyFile policyDir name = policyFile policyDir other ↔
      filepathBase name = filepathBase other := by
  rw [stays_iff hdir] at h h'
  constructor
  · intro heq
    rw [policyFile_eq hdir, policyFile_eq hdir] at heq
    have hstack := Path.render_injective (isElement_file name) (isElement_file other) heq
    exact List.append_cancel_right (List.cons.inj hstack).1
  · intro heq
    rw [policyFile_eq hdir, policyFile_eq hdir, h, h', heq]

/-- A name without a slash stays, and is its own last element. -/
theorem stays_of_notMem (hdir : policyDir ≠ []) {name : GoString} (h : Path.slash ∉ name) :
    Stays policyDir name ∧ filepathBase name = name := by
  refine ⟨(stays_iff hdir name).mpr ?_, ?_⟩
  · rw [nameStack, split_of_notMem h]
    rfl
  · rw [filepathBase, split_of_notMem h]
    rfl

/-! ### The requests -/

variable {re : Regexp}

theorem lookup_saved {disk : Disk} {policy : Policy} {fault : Option GoError} {path : GoString}
    (h : (saved policyDir disk policy fault).lookup path ≠ disk.lookup path) :
    path = policyFile policyDir policy.name := by
  unfold saved savePolicyToFile at h
  by_cases hdir : policyDir = []
  · rw [if_pos hdir] at h
    exact absurd rfl h
  · rw [if_neg hdir] at h
    cases fault with
    | some err => exact absurd rfl h
    | none =>
      by_contra hpath
      exact h (Finmap.lookup_insert_of_ne disk hpath)

/-- A request writes or removes no file but that of the name it is about. -/
theorem disk_of_request (s : PolicyServer) (i : PolicyCall) {path : GoString}
    (h : ((requests re policyDir).step s i).1.disk.lookup path ≠ s.disk.lookup path) :
    ∃ name, i.request.policyName = some name ∧ path = policyFile policyDir name := by
  obtain ⟨request, fault⟩ := i
  cases request with
  | create body =>
    simp only [requests] at h
    rcases createPolicy_cases re policyDir s fault body with
      hsame | ⟨policy, rfl, -, -, hcreated⟩
    · rw [hsame] at h
      exact absurd rfl h
    · rw [hcreated] at h
      exact ⟨policy.name, rfl, lookup_saved h⟩
  | update name body =>
    simp only [requests] at h
    rcases updatePolicy_cases re policyDir s fault name body with
      hsame | ⟨policy, rfl, rfl, -, -, hupdated⟩
    · rw [hsame] at h
      exact absurd rfl h
    · rw [hupdated] at h
      exact ⟨policy.name, rfl, lookup_saved h⟩
  | delete name =>
    refine ⟨name, rfl, ?_⟩
    simp only [requests] at h
    rcases deletePolicy_cases policyDir s fault name with hsame | ⟨-, hdeleted⟩
    · rw [hsame] at h
      exact absurd rfl h
    · rw [hdeleted] at h
      dsimp only at h
      split_ifs at h
      · exact absurd rfl h
      · unfold removePolicyFile at h
        cases fault with
        | some err => exact absurd rfl h
        | none =>
          by_contra hpath
          exact h (Finmap.lookup_erase_ne hpath)

/-- A policy with this name and no rules. -/
def plainPolicy (name : GoString) : Policy :=
  { name, description := [], kv := [], service := [], health := [], backup := [], admin := [] }

/-- The file a request about an accepted name changes is the file of the policy. -/
theorem changes_iff (hdir : policyDir ≠ []) {name : GoString} (hname : name ≠ [])
    (path : GoString) : Changes re policyDir name path ↔ path = policyFile policyDir name := by
  constructor
  · rintro ⟨disk, e, run, i, -, hi, hchange⟩
    obtain ⟨name', hname', hpath⟩ := disk_of_request _ i hchange
    rw [hi, Option.some_inj] at hname'
    rw [hname']
    exact hpath
  · intro hpath
    -- the first request to a server with an empty directory
    have hload : loadPolicies re policyDir ∅ .new = some .new := if_neg hdir
    have hvalid : (plainPolicy name).validate re = some (.ok ()) :=
      (if_neg hname).trans (if_pos ⟨rfl, rfl⟩)
    refine ⟨∅, .new, [], ⟨.create (some (plainPolicy name)), none⟩, hload, rfl, ?_⟩
    have hdisk : ((requests re policyDir).step ⟨.new, ∅⟩
        ⟨.create (some (plainPolicy name)), none⟩).1.disk = (∅ : Disk).insert
          (policyFile policyDir name) (Policy.codec.marshalIndent (plainPolicy name)) := by
      simp only [requests, createPolicy, validated, hvalid, Evaluator.addPolicy, Evaluator.new,
        Finmap.lookup_empty, saved, if_neg hdir, savePolicyToFile]
      rfl
    show ((requests re policyDir).step ⟨.new, ∅⟩ _).1.disk.lookup path ≠ (∅ : Disk).lookup path
    rw [hdisk, hpath, Finmap.lookup_insert, Finmap.lookup_empty]
    exact Option.some_ne_none _

/-- The files of two names are in the directory and apart iff the parts before the last
slashes lead back to it and the parts behind tell the names apart. -/
theorem apart_iff (re : Regexp) (policyDir : GoString) (hdir : policyDir ≠ [])
    (name other : GoString) (hname : name ≠ []) (hother : other ≠ []) :
    Apart re policyDir name other ↔ Stays policyDir name ∧ Stays policyDir other ∧
      (filepathBase name = filepathBase other → name = other) := by
  have hfile := @changes_iff policyDir re hdir name hname
  have hfile' := @changes_iff policyDir re hdir other hother
  constructor
  · intro h
    have hstays := (directChild_iff hdir name).mp (h.child _ ((hfile _).mpr rfl))
    have hstays' := (directChild_iff hdir other).mp (h.childOther _ ((hfile' _).mpr rfl))
    refine ⟨hstays, hstays', fun hbase => ?_⟩
    have hsame := (policyFile_eq_iff hdir hstays hstays').mpr hbase
    exact h.injective _ ((hfile _).mpr rfl) ((hfile' _).mpr hsame)
  · rintro ⟨hstays, hstays', hbase⟩
    refine ⟨fun path hpath => ?_, fun path hpath => ?_, fun path hpath hpath' => ?_⟩
    · rw [(hfile path).mp hpath]
      exact (directChild_iff hdir name).mpr hstays
    · rw [(hfile' path).mp hpath]
      exact (directChild_iff hdir other).mpr hstays'
    · have hsame := ((hfile path).mp hpath).symm.trans ((hfile' path).mp hpath')
      exact hbase ((policyFile_eq_iff hdir hstays hstays').mp hsame)

theorem apart_ops_dev : Apart noRegexp policies (str "ops") (str "dev") := by
  refine (apart_iff noRegexp policies (by decide) (str "ops") (str "dev") (by decide)
    (by decide)).mpr ?_
  have hops := @stays_of_notMem policies (by decide) (str "ops") (by decide)
  have hdev := @stays_of_notMem policies (by decide) (str "dev") (by decide)
  refine ⟨hops.1, hdev.1, fun hbase => ?_⟩
  rw [hops.2, hdev.2] at hbase
  exact hbase

/-- A name with a parent reference is written outside the directory. -/
theorem parent_escapes :
    ¬ ∀ (re : Regexp) (policyDir : GoString), policyDir ≠ [] → ∀ name other : GoString,
      name ≠ [] → other ≠ [] → Apart re policyDir name other := by
  intro h
  have hdir : policies ≠ [] := by decide
  have hname : str "../ops" ≠ [] := by decide
  have hchild := (h noRegexp policies hdir _ _ hname hname).child _ ((changes_iff hdir hname _).mpr rfl)
  have hstays := (directChild_iff hdir (str "../ops")).mp hchild
  exact absurd hstays (by unfold Stays; decide)

end ACLHandler

end Konsul
