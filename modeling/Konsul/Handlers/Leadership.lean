import Konsul.Graphql.Resolver
import Konsul.Handlers.Requests

/-!
# Handlers on a node whose leadership comes and goes

A `RaftMoment` is what a handler meets of Raft at one of its operations: the role of the
node, the leader it knows of, and what would come of a command. A `Trace` records what a
handler saw and did. A write is refused cleanly if it is answered as one on a node that
is not the leader, and if nothing is proposed after a check that found no leader.
-/

namespace Konsul

open GoLib

/-! ### Raft, moment by moment -/

/-- An error of Raft that does not say that the node is not the leader. -/
abbrev OtherError :=
  { err : GoError //
    GoError.is errNotLeader err = false ∧ GoError.is hashiErrNotLeader err = false }

/-- What comes of a command handed to `raft.Apply`. -/
inductive RaftOutcome where
  | committed (answer : FsmResponse)
  /-- Refused before it was in the log. -/
  | notLeader
  /-- In the log when leadership was lost. -/
  | leadershipLost
  | failed (err : OtherError) (logged : Bool)

/-- What comes of `ApplyEntry`; `none` is a node that is not the leader to begin with. -/
abbrev Attempt := Option RaftOutcome

structure RaftMoment where
  isLeader : Bool
  leaderAddr : GoString
  outcome : RaftOutcome

def RaftMoment.attempt (m : RaftMoment) : Attempt := if m.isLeader then some m.outcome else none

namespace Attempt

/-- The answer of `ApplyEntry`. -/
def applied : Attempt → Except GoError FsmResponse
  | none => .error errNotLeader
  | some (.committed answer) => .ok answer
  | some .notLeader => .error (.wrap (str "raft apply failed") hashiErrNotLeader)
  | some .leadershipLost => .error errNotLeader
  | some (.failed err _) => .error (.wrap (str "raft apply failed") err)

def Committed : Attempt → Prop
  | some (.committed _) => True
  | _ => False

/-- The command is not committed because the node is not, or no longer, the leader. -/
def LeaderGone : Attempt → Prop
  | none | some .notLeader | some .leadershipLost => True
  | _ => False

def Logged : Attempt → Prop
  | some (.committed _) | some .leadershipLost => True
  | some (.failed _ logged) => logged = true
  | _ => False

/-- Refused by `raft.Apply` itself, with the error of the Raft library. -/
def ByLibrary (a : Attempt) : Prop := a = some .notLeader

/-- Given up by `ApplyEntry`, before or after `raft.Apply`, with the error of this repository. -/
def ByNode (a : Attempt) : Prop := a = none ∨ a = some .leadershipLost

/-- The error is the variable a handler compares it with. -/
def Known (target : Option GoError) (a : Attempt) : Prop :=
  ∃ known err, target = some known ∧ a.applied = .error err ∧ GoError.is known err = true

end Attempt

/-! ### What a handler saw and did -/

structure Trace where
  turn : ℕ
  /-- The leader checks, by what they found. -/
  checks : List Bool
  attempts : List Attempt
  /-- The calls of the node's own stores, by whether it was the leader. -/
  direct : List Bool

namespace Trace

def start : Trace := ⟨0, [], [], []⟩

def next (t : Trace) : Trace := { t with turn := t.turn + 1 }

/-- All but the turn. -/
def done (t : Trace) : List Bool × List Attempt × List Bool := (t.checks, t.attempts, t.direct)

/-- `calls` answers what is no matter of Raft. -/
def exec (τ : ℕ → RaftMoment) (calls : ℕ → (c : StoreCall) → c.Answer) (t : Trace) :
    (c : StoreCall) → Trace × c.Answer
  | .op .isLeader =>
    ({ t.next with checks := t.checks ++ [(τ t.turn).isLeader] }, (τ t.turn).isLeader)
  | .op .leaderAddr => (t.next, (τ t.turn).leaderAddr)
  | .op (.applyEntry _) =>
    ({ t.next with attempts := t.attempts ++ [(τ t.turn).attempt] }, (τ t.turn).attempt.applied)
  | .op (.kvStore c) =>
    ({ t.next with direct := t.direct ++ [(τ t.turn).isLeader] }, calls t.turn (.op (.kvStore c)))
  | .op (.serviceStore c) =>
    ({ t.next with direct := t.direct ++ [(τ t.turn).isLeader] },
      calls t.turn (.op (.serviceStore c)))
  | c => (t.next, calls t.turn c)

/-- The operations of a handler that writes. -/
def execOp (τ : ℕ → RaftMoment) (calls : ℕ → (c : StoreCall) → c.Answer) (t : Trace) (op : Op) :
    Trace × op.Answer := exec τ calls t (.op op)

/-- A check found no leader and no command was committed, or a command was not for want of
a leader, or a store was written on a node that is not the leader. -/
def Refused (t : Trace) : Prop :=
  (false ∈ t.checks ∧ ∀ a ∈ t.attempts, ¬ a.Committed) ∨ (∃ a ∈ t.attempts, a.LeaderGone) ∨
    false ∈ t.direct

/-- The requirement; `answered` says that the reply is one of a node that is not the leader. -/
structure Clean (t : Trace) (answered : Prop) : Prop where
  answered : t.Refused → answered
  nothing : false ∈ t.checks → ∀ a ∈ t.attempts, ¬ a.Logged

/-- Without a check that found no leader, the attempts and the stores' calls decide. -/
theorem clean_iff_of_unchecked {t : Trace} {answered : Prop} (h : false ∉ t.checks) :
    t.Clean answered ↔
      ((∃ a ∈ t.attempts, a.LeaderGone) ∨ false ∈ t.direct → answered) := by
  constructor
  · exact fun hclean hrefused => hclean.answered (Or.inr hrefused)
  · intro hanswered
    refine ⟨fun hrefused => ?_, fun hfalse => absurd hfalse h⟩
    rcases hrefused with ⟨hfalse, -⟩ | hrefused
    · exact absurd hfalse h
    · exact hanswered hrefused

theorem clean_iff_of_attempts {t : Trace} {answered : Prop} (h : false ∉ t.checks)
    (hdirect : t.direct = []) :
    t.Clean answered ↔ ((∃ a ∈ t.attempts, a.LeaderGone) → answered) := by
  rw [clean_iff_of_unchecked h, hdirect, or_iff_left List.not_mem_nil]

end Trace

/-! ### The replies of a node that is not the leader -/

namespace Response

/-- The replies of `checkLeaderForWrite`. -/
def redirect (leaderAddr : GoString) : Response :=
  ⟨307, [(str "error", .text (str "not leader")),
    (str "message", .text
      (str "This node is not the leader. Redirect to leader for write operations.")),
    (str "leader_addr", .text leaderAddr)]⟩

def noLeader : Response :=
  ⟨503, [(str "error", .text (str "no leader")),
    (str "message", .text
      (str "No leader is currently elected. The cluster may be initializing or partitioned."))]⟩

def IsNotLeader (r : Response) : Prop :=
  (∃ leader, r = notLeader leader) ∨ (∃ leaderAddr, r = redirect leaderAddr) ∨ r = noLeader

theorem isNotLeader_notLeader (leader : GoString) : (notLeader leader).IsNotLeader :=
  Or.inl ⟨leader, rfl⟩

theorem IsNotLeader.status {r : Response} (h : r.IsNotLeader) :
    r.status = 503 ∨ r.status = 307 := by
  rcases h with ⟨leader, rfl⟩ | ⟨leaderAddr, rfl⟩ | rfl
  · exact Or.inl rfl
  · exact Or.inr rfl
  · exact Or.inl rfl

theorem not_isNotLeader {r : Response} {n : ℕ} (hstatus : r.status = n) (h : n ≠ 503 ∧ n ≠ 307) :
    ¬ r.IsNotLeader := by
  subst hstatus
  exact fun hr => hr.status.elim h.1 h.2

end Response

/-- An error of a GraphQL field that says that the node is not the leader. -/
def FieldResult.IsNotLeader (r : FieldResult) : Prop :=
  ∃ err, r = .error err ∧
    (GoError.is errNotLeader err = true ∨ GoError.is hashiErrNotLeader err = true)

/-! ### One attempt -/

/-- Operations that neither check nor write. -/
def Op.Quiet : Op → Prop
  | .leaderAddr | .getKVEntry _ | .getServiceEntry _ | .view _ => True
  | _ => False

section

variable {τ : ℕ → RaftMoment} {calls : ℕ → (c : StoreCall) → c.Answer}

open Trace

variable (τ calls) in
theorem quiet_run {R : Type} {p : Handler R} (h : p.Only Op.Quiet) (t : Trace) :
    (p.run (execOp τ calls) t).1.checks = t.checks ∧
      (p.run (execOp τ calls) t).1.attempts = t.attempts ∧
      (p.run (execOp τ calls) t).1.direct = t.direct := by
  have hstep : ∀ (t : Trace) (op : Op), op.Quiet →
      (execOp τ calls t op).1.done = t.done := by
    intro t op hop
    cases op with
    | leaderAddr | getKVEntry | getServiceEntry | view => rfl
    | _ => exact hop.elim
  have hrun := h.run_eq hstep t
  simp only [Trace.done, Prod.mk.injEq] at hrun
  exact hrun

/-- A program that proposes one command, and answers as a node that is not the leader if
the error is `target`. -/
structure ProposesOnce (τ : ℕ → RaftMoment) (calls : ℕ → (c : StoreCall) → c.Answer)
    (target : Option GoError) (p : Handler Response) : Prop where
  call : ∃ c next, p = .call (.applyEntry c) next ∧ (∀ r, (next r).Only Op.Quiet) ∧
    ∀ err t, ((next (.error err)).run (execOp τ calls) t).2.IsNotLeader ↔
      ∃ known, target = some known ∧ GoError.is known err = true

variable {target : Option GoError} {p : Handler Response}

theorem ProposesOnce.run (h : ProposesOnce τ calls target p) (t : Trace) :
    (p.run (execOp τ calls) t).1.checks = t.checks ∧
      (p.run (execOp τ calls) t).1.direct = t.direct ∧
      (p.run (execOp τ calls) t).1.attempts = t.attempts ++ [(τ t.turn).attempt] ∧
      (¬ (τ t.turn).attempt.Committed →
        ((p.run (execOp τ calls) t).2.IsNotLeader ↔ (τ t.turn).attempt.Known target)) := by
  obtain ⟨c, next, rfl, hquiet, hreply⟩ := h.call
  let t' : Trace := { t.next with attempts := t.attempts ++ [(τ t.turn).attempt] }
  have hrun : (Program.call (.applyEntry c) next : Handler Response).run (execOp τ calls) t =
      (next (τ t.turn).attempt.applied).run (execOp τ calls) t' := rfl
  obtain ⟨hchecks, hattempts, hdirect⟩ :=
    quiet_run τ calls (hquiet (τ t.turn).attempt.applied) t'
  rw [hrun]
  refine ⟨hchecks, hdirect, hattempts, fun hnot => ?_⟩
  cases happlied : (τ t.turn).attempt.applied with
  | error err =>
    rw [hreply err t']
    constructor
    · rintro ⟨known, hknown, his⟩
      exact ⟨known, err, hknown, happlied, his⟩
    · rintro ⟨known, err', hknown, herr, his⟩
      cases happlied.symm.trans herr
      exact ⟨known, hknown, his⟩
  | ok answer =>
    exfalso
    cases hattempt : (τ t.turn).attempt with
    | none => simp only [hattempt, Attempt.applied] at happlied; exact nomatch happlied
    | some outcome =>
      cases outcome with
      | committed answer' => exact hnot (hattempt ▸ trivial)
      | _ => simp only [hattempt, Attempt.applied] at happlied; exact nomatch happlied

/-! ### With and without a leader check -/

theorem Attempt.LeaderGone.not_committed {a : Attempt} (h : a.LeaderGone) : ¬ a.Committed := by
  cases a with
  | none => exact id
  | some outcome =>
    cases outcome with
    | committed answer => exact h.elim
    | _ => exact id

theorem Attempt.ByLibrary.not_committed {a : Attempt} (h : a.ByLibrary) : ¬ a.Committed := by
  cases h
  exact id

theorem Attempt.Known.not_committed {a : Attempt} (h : a.Known target) : ¬ a.Committed := by
  obtain ⟨known, err, -, happlied, -⟩ := h
  cases a with
  | none => exact id
  | some outcome =>
    cases outcome with
    | committed answer => exact nomatch happlied
    | _ => exact id

theorem Attempt.not_logged_of_committed {a : Attempt} (h : ¬ a.Logged) : ¬ a.Committed := by
  cases a with
  | none => exact id
  | some outcome =>
    cases outcome with
    | committed answer => exact absurd trivial h
    | _ => exact id

/-- The first attempt, if it fails for want of a leader, does so in a way that is seen. -/
def UncheckedClean (τ : ℕ → RaftMoment) (seen : Attempt → Prop) : Prop :=
  (τ 0).attempt.LeaderGone → seen (τ 0).attempt

/-- A leader at the check needs what a write without a check needs. After a check that
found no leader the attempt has to fail as seen, before the command is in the log. -/
def CheckedClean (τ : ℕ → RaftMoment) (seen : Attempt → Prop) : Prop :=
  if (τ 0).isLeader then (τ 1).attempt.LeaderGone → seen (τ 1).attempt
  else seen (τ 2).attempt ∧ ¬ (τ 2).attempt.Logged

/-! The variables a handler compares with, by the attempts that fail with them. -/

theorem known_none : Attempt.Known none = fun _ => False := by
  funext a
  refine eq_false ?_
  rintro ⟨known, err, h, -⟩
  exact nomatch h

theorem known_of_error {known err : GoError} {a : Attempt} (h : a.applied = .error err) :
    a.Known (some known) ↔ GoError.is known err = true := by
  constructor
  · rintro ⟨known', err', hknown, herr, his⟩
    cases hknown
    cases h.symm.trans herr
    exact his
  · exact fun his => ⟨known, err, rfl, h, his⟩

theorem is_wrap (target : GoError) (message : GoString) (err : GoError)
    (h : target ≠ .wrap message err) :
    GoError.is target (.wrap message err) = GoError.is target err := by
  rw [GoError.is, decide_eq_false h, Bool.false_or]

theorem known_errNotLeader : Attempt.Known (some errNotLeader) = Attempt.ByNode := by
  funext a
  refine propext ?_
  cases a with
  | none => exact iff_of_true ((known_of_error rfl).mpr (by decide)) (Or.inl rfl)
  | some outcome =>
    cases outcome with
    | committed answer =>
      refine iff_of_false ?_ nofun
      rintro ⟨known, err, -, happlied, -⟩
      exact nomatch happlied
    | notLeader => exact iff_of_false (mt (known_of_error rfl).mp (by decide)) nofun
    | leadershipLost => exact iff_of_true ((known_of_error rfl).mpr (by decide)) (Or.inr rfl)
    | failed err logged =>
      refine iff_of_false (mt (known_of_error rfl).mp ?_) nofun
      rw [is_wrap errNotLeader (str "raft apply failed") err (fun h => nomatch h), err.2.1]
      exact Bool.false_ne_true

theorem known_hashiErrNotLeader : Attempt.Known (some hashiErrNotLeader) = Attempt.ByLibrary := by
  funext a
  refine propext ?_
  cases a with
  | none => exact iff_of_false (mt (known_of_error rfl).mp (by decide)) nofun
  | some outcome =>
    cases outcome with
    | committed answer =>
      refine iff_of_false ?_ nofun
      rintro ⟨known, err, -, happlied, -⟩
      exact nomatch happlied
    | notLeader => exact iff_of_true ((known_of_error rfl).mpr (by decide)) rfl
    | leadershipLost => exact iff_of_false (mt (known_of_error rfl).mp (by decide)) nofun
    | failed err logged =>
      refine iff_of_false (mt (known_of_error rfl).mp ?_) nofun
      rw [is_wrap hashiErrNotLeader (str "raft apply failed") err (fun h => nomatch h), err.2.2]
      exact Bool.false_ne_true

/-- The requirement on a request that is answered with `r`. -/
def Trace.CleanRun (r : Trace × Response) : Prop := r.1.Clean r.2.IsNotLeader

theorem ProposesOnce.clean_iff (h : ProposesOnce τ calls target p) :
    CleanRun (p.run (execOp τ calls) .start) ↔ UncheckedClean τ (Attempt.Known target) := by
  obtain ⟨hchecks, hdirect, hattempts, hreply⟩ := h.run .start
  have hunchecked : false ∉ (p.run (execOp τ calls) .start).1.checks := by
    rw [hchecks]
    exact List.not_mem_nil
  have hone : (∃ a ∈ (p.run (execOp τ calls) .start).1.attempts, a.LeaderGone) ↔
      (τ 0).attempt.LeaderGone := by
    rw [hattempts]
    simp [start]
  unfold CleanRun UncheckedClean
  rw [clean_iff_of_attempts hunchecked hdirect, hone]
  exact imp_congr_right fun hgone => hreply hgone.not_committed

variable (τ calls) in
theorem trace_checkLeaderForWrite :
    ∃ status, (checkLeaderForWrite true).run (execOp τ calls) .start =
      (⟨if (τ 0).isLeader then 1 else 2, [(τ 0).isLeader], [], []⟩, status) := by
  have hcheck : execOp τ calls .start .isLeader =
      (⟨1, [(τ 0).isLeader], [], []⟩, (τ 0).isLeader) := rfl
  cases hleader : (τ 0).isLeader with
  | true =>
    refine ⟨200, ?_⟩
    rw [hleader] at hcheck
    simp only [checkLeaderForWrite, Node.isLeader, Program.run_perform_bind, hcheck, ite_true]
    rfl
  | false =>
    refine ⟨if (τ 1).leaderAddr = [] then 503 else 307, ?_⟩
    rw [hleader] at hcheck
    have haddr : execOp τ calls ⟨1, [false], [], []⟩ .leaderAddr =
        (⟨2, [false], [], []⟩, (τ 1).leaderAddr) := rfl
    simp only [checkLeaderForWrite, Node.isLeader, Node.leaderAddr, Program.run_perform_bind,
      hcheck, haddr, ite_true, Bool.false_eq_true, ite_false]
    split_ifs <;> rfl

theorem checked_clean_iff {p : ℕ → Handler Response}
    (h : ∀ status, ProposesOnce τ calls target (p status)) :
    CleanRun ((checkLeaderForWrite true >>= p).run (execOp τ calls) .start) ↔
      CheckedClean τ (Attempt.Known target) := by
  obtain ⟨status, hcheck⟩ := trace_checkLeaderForWrite τ calls
  rw [Program.run_bind, hcheck]
  dsimp only
  obtain ⟨hchecks, hdirect, hattempts, hreply⟩ :=
    (h status).run ⟨if (τ 0).isLeader then 1 else 2, [(τ 0).isLeader], [], []⟩
  generalize (p status).run (execOp τ calls) _ = r at hchecks hdirect hattempts hreply
  unfold CleanRun CheckedClean
  cases hleader : (τ 0).isLeader with
  | true =>
    simp only [hleader, ite_true] at hchecks hattempts hreply ⊢
    have hunchecked : false ∉ r.1.checks := by simp [hchecks]
    have hone : (∃ a ∈ r.1.attempts, a.LeaderGone) ↔ (τ 1).attempt.LeaderGone := by
      simp [hattempts]
    rw [clean_iff_of_attempts hunchecked hdirect, hone]
    exact imp_congr_right fun hgone => hreply hgone.not_committed
  | false =>
    simp only [hleader, Bool.false_eq_true, ite_false] at hchecks hattempts hreply ⊢
    have hfalse : false ∈ r.1.checks := by
      rw [hchecks]
      exact List.mem_singleton_self _
    have hmem : (τ 2).attempt ∈ r.1.attempts := by
      rw [hattempts]
      exact List.mem_singleton_self _
    have hall {P : Attempt → Prop} (hP : P (τ 2).attempt) : ∀ a ∈ r.1.attempts, P a := by
      intro a ha
      rw [hattempts] at ha
      cases List.mem_singleton.mp ha
      exact hP
    constructor
    · intro hclean
      have hlogged := hclean.nothing hfalse _ hmem
      have hcommitted := Attempt.not_logged_of_committed hlogged
      exact ⟨(hreply hcommitted).mp (hclean.answered (Or.inl ⟨hfalse, hall hcommitted⟩)), hlogged⟩
    · rintro ⟨hknown, hlogged⟩
      exact ⟨fun _ => (hreply hknown.not_committed).mpr hknown, fun _ => hall hlogged⟩

theorem checked_ret_clean_iff {r : Response} (hr : ¬ r.IsNotLeader) :
    CleanRun ((checkLeaderForWrite true >>= fun _ => .ret r).run (execOp τ calls) .start) ↔
      (τ 0).isLeader = true := by
  obtain ⟨status, hcheck⟩ := trace_checkLeaderForWrite τ calls
  rw [Program.run_bind, hcheck]
  unfold CleanRun
  dsimp only [Program.run_ret]
  constructor
  · intro hclean
    by_contra hleader
    have hfalse : (τ 0).isLeader = false := Bool.eq_false_iff.mpr hleader
    refine hr (hclean.answered (Or.inl ⟨?_, nofun⟩))
    rw [hfalse]
    exact List.mem_singleton_self _
  · intro hleader
    have hunchecked : false ∉ [(τ 0).isLeader] := by simp [hleader]
    refine (clean_iff_of_attempts hunchecked rfl).mpr ?_
    rintro ⟨a, ha, -⟩
    exact nomatch ha

theorem quiet_clean (h : p.Only Op.Quiet) : CleanRun (p.run (execOp τ calls) .start) := by
  obtain ⟨hchecks, hattempts, hdirect⟩ := quiet_run τ calls h .start
  have hunchecked : false ∉ (p.run (execOp τ calls) .start).1.checks := by
    rw [hchecks]
    exact List.not_mem_nil
  refine (clean_iff_of_attempts hunchecked hdirect).mpr ?_
  rintro ⟨a, ha, -⟩
  rw [hattempts] at ha
  exact nomatch ha

end

end Konsul
