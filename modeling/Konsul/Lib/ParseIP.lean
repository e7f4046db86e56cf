import Konsul.Lib.Json
import Konsul.Lib.Strings

/-!
# Texts of IP addresses

`net.ParseIP` and `IP.To4`. The texts with dots that are parsed are those that an address prints
as; an IPv6 text may name an IPv4 address too, in its block of the longer ones.
-/

namespace GoLib

structure IPv4 where
  a : UInt8
  b : UInt8
  c : UInt8
  d : UInt8
  deriving DecidableEq

/-- `net.IP`, which is empty for no address. -/
abbrev IP := List UInt8

def ipDot : UInt8 := 0x2E

def ipColon : UInt8 := 0x3A

def mappedHead : List UInt8 := List.replicate 10 0 ++ [0xFF, 0xFF]

namespace IPv4

def text (q : IPv4) : Bytes :=
  join ipDot [decimal q.a.toNat, decimal q.b.toNat, decimal q.c.toNat, decimal q.d.toNat]

def bytes (q : IPv4) : List UInt8 := [q.a, q.b, q.c, q.d]

def ofBytes : List UInt8 → Option IPv4
  | [a, b, c, d] => some ⟨a, b, c, d⟩
  | _ => none

/-- The address in sixteen bytes. -/
def mapped (q : IPv4) : IP := mappedHead ++ q.bytes

end IPv4

/-- `IP.To4`. -/
def to4 (ip : IP) : Option IPv4 :=
  if ip.length = 4 then IPv4.ofBytes ip
  else if ip.take 12 = mappedHead then IPv4.ofBytes (ip.drop 12)
  else none

/-! ### Dotted texts -/

/-- A zero stands in front of no digit. -/
def parseOctet (t : Bytes) : Option UInt8 :=
  if t ≠ [] ∧ t.all isDigit ∧ (t.length = 1 ∨ t.head? ≠ some 0x30) ∧ decimalValue t ≤ 255 then
    some (.ofNat (decimalValue t))
  else none

def parseIPv4 (s : Bytes) : Option IPv4 :=
  ((split ipDot s).mapM parseOctet).bind IPv4.ofBytes

/-! ### Texts with colons -/

/-- One to four hexadecimal digits, as two bytes. -/
def parseGroup (t : Bytes) : Option (List UInt8) :=
  if 1 ≤ t.length ∧ t.length ≤ 4 then
    (t.mapM Json.hexVal).map fun digits =>
      let n := digits.foldl (fun acc x => 16 * acc + x) 0
      [.ofNat (n / 256), .ofNat (n % 256)]
  else none

/-- The last group may be an IPv4 address. -/
def parseGroups : List Bytes → Option (List UInt8)
  | [] => some []
  | [t] => (parseGroup t).or ((parseIPv4 t).map IPv4.bytes)
  | t :: ts => do return (← parseGroup t) ++ (← parseGroups ts)

/-- The texts before and after the first `::`. -/
def cutEllipsis : Bytes → Option (Bytes × Bytes)
  | [] => none
  | b :: s =>
    if b = ipColon ∧ s.head? = some ipColon then some ([], s.drop 1)
    else (cutEllipsis s).map fun p => (b :: p.1, p.2)

def parseBefore (s : Bytes) : Option (List UInt8) :=
  if s = [] then some [] else ((split ipColon s).mapM parseGroup).map List.flatten

def parseAfter (s : Bytes) : Option (List UInt8) :=
  if s = [] then some [] else parseGroups (split ipColon s)

/-- The ellipsis stands for one group of zeros at least. -/
def fill (before after : List UInt8) : Option IP :=
  if before.length + after.length ≤ 14 then
    some (before ++ List.replicate (16 - (before.length + after.length)) 0 ++ after)
  else none

def parseIPv6 (s : Bytes) : Option IP :=
  match cutEllipsis s with
  | none => (parseGroups (split ipColon s)).filter fun ip => ip.length = 16
  | some (before, after) =>
    (parseBefore before).bind fun x => (parseAfter after).bind fun y => fill x y

/-- `net.ParseIP`; a zone is refused with the text. -/
def parseIP (s : Bytes) : IP :=
  match parseIPv4 s with
  | some q => q.mapped
  | none => (parseIPv6 s).getD []

/-! ### What a dotted text names -/

theorem parseOctet_decimal (n : UInt8) : parseOctet (decimal n.toNat) = some n := by
  have hlead : (decimal n.toNat).length = 1 ∨ (decimal n.toNat).head? ≠ some 0x30 := by
    by_cases hn : n.toNat = 0
    · rw [hn]
      exact .inl rfl
    · obtain ⟨b, rest, hb, hne⟩ := head_decimal hn
      rw [hb]
      exact .inr fun h => hne (Option.some.inj h)
  have hlt : n.toNat < 256 := n.toNat_lt
  rw [parseOctet, decimalValue_decimal, if_pos ⟨decimal_ne_nil _,
    List.all_eq_true.mpr isDigit_of_mem_decimal, hlead, by omega⟩, UInt8.ofNat_toNat]

theorem parseOctet_eq_some_iff {t : Bytes} {n : UInt8} :
    parseOctet t = some n ↔ t = decimal n.toNat := by
  constructor
  · intro h
    rw [parseOctet] at h
    split_ifs at h with hwell
    obtain ⟨hne, hdigits, hlead, hle⟩ := hwell
    cases h
    rw [UInt8.toNat_ofNat_of_lt' (lt_of_le_of_lt hle (by decide))]
    exact (decimal_decimalValue hne (List.all_eq_true.mp hdigits) hlead).symm
  · rintro rfl
    exact parseOctet_decimal n

theorem notMem_decimal {sep : UInt8} (h : isDigit sep = false) (n : ℕ) : sep ∉ decimal n := by
  intro hmem
  rw [isDigit_of_mem_decimal sep hmem] at h
  cases h

theorem split_text (q : IPv4) : split ipDot q.text =
    [decimal q.a.toNat, decimal q.b.toNat, decimal q.c.toNat, decimal q.d.toNat] := by
  have hdot (n : ℕ) : ipDot ∉ decimal n := notMem_decimal (by decide) n
  simp only [IPv4.text, join]
  rw [split_append, split_append, split_append]
  simp only [split_of_notMem (hdot _), List.singleton_append]

theorem parseIPv4_text (q : IPv4) : parseIPv4 q.text = some q := by
  rw [parseIPv4, split_text]
  simp only [List.mapM_cons, List.mapM_nil, parseOctet_decimal]
  rfl

/-- Texts that are parsed one by one are those of the values. -/
theorem eq_map_of_mapM {α β : Type} {f : α → Option β} {g : β → α}
    (h : ∀ t n, f t = some n → t = g n) {ts : List α} {ns : List β} (hns : ts.mapM f = some ns) :
    ts = ns.map g := by
  induction ts generalizing ns with
  | nil =>
    cases hns
    rfl
  | cons t ts ih =>
    rw [List.mapM_cons] at hns
    obtain ⟨n, hn, hrest⟩ := Option.bind_eq_some_iff.mp hns
    obtain ⟨ns', hns', hcons⟩ := Option.bind_eq_some_iff.mp hrest
    cases hcons
    rw [List.map_cons, ← h t n hn, ← ih hns']

theorem IPv4.ofBytes_eq_some_iff {l : List UInt8} {q : IPv4} :
    IPv4.ofBytes l = some q ↔ l = q.bytes := by
  constructor
  · intro h
    unfold IPv4.ofBytes at h
    split at h
    · cases h
      rfl
    · cases h
  · rintro rfl
    rfl

theorem parseIPv4_eq_some_iff {s : Bytes} {q : IPv4} : parseIPv4 s = some q ↔ s = q.text := by
  constructor
  · intro h
    obtain ⟨ns, hns, hq⟩ := Option.bind_eq_some_iff.mp h
    rw [IPv4.ofBytes_eq_some_iff.mp hq] at hns
    have hparts := eq_map_of_mapM (g := fun n => decimal n.toNat)
      (fun _ _ ht => parseOctet_eq_some_iff.mp ht) hns
    rw [← join_split ipDot s, hparts]
    rfl
  · rintro rfl
    exact parseIPv4_text q

/-! ### What a text with colons names -/

theorem to4_mapped (q : IPv4) : to4 q.mapped = some q := rfl

theorem to4_eq_some {ip : IP} {q : IPv4} (hlength : ip.length = 16) (h : to4 ip = some q) :
    ip = q.mapped := by
  rw [to4, if_neg (by omega)] at h
  split_ifs at h with hhead
  rw [← List.take_append_drop 12 ip, hhead, IPv4.ofBytes_eq_some_iff.mp h, IPv4.mapped]

theorem length_parseIPv6 {s : Bytes} {ip : IP} (h : parseIPv6 s = some ip) : ip.length = 16 := by
  unfold parseIPv6 at h
  split at h
  · exact of_decide_eq_true (Option.filter_eq_some_iff.mp h).2
  · obtain ⟨x, -, h⟩ := Option.bind_eq_some_iff.mp h
    obtain ⟨y, -, h⟩ := Option.bind_eq_some_iff.mp h
    unfold fill at h
    split_ifs at h
    cases h
    simp only [List.length_append, List.length_replicate]
    omega

theorem cutEllipsis_of_notMem {s : Bytes} (h : ipColon ∉ s) : cutEllipsis s = none := by
  induction s with
  | nil => rfl
  | cons b s ih =>
    obtain ⟨hb, hs⟩ := not_or.mp (mt List.mem_cons.mpr h)
    rw [cutEllipsis, if_neg fun hcolon => hb hcolon.1.symm, ih hs]
    rfl

theorem length_parseGroup {t : Bytes} {x : List UInt8} (h : parseGroup t = some x) :
    x.length = 2 := by
  unfold parseGroup at h
  split_ifs at h
  obtain ⟨digits, -, rfl⟩ := Option.map_eq_some_iff.mp h
  rfl

theorem parseIPv6_of_notMem {s : Bytes} (h : ipColon ∉ s) : parseIPv6 s = none := by
  rw [parseIPv6, cutEllipsis_of_notMem h]
  refine Option.eq_none_iff_forall_not_mem.mpr fun ip hip => ?_
  obtain ⟨hgroups, hlength⟩ := Option.filter_eq_some_iff.mp hip
  rw [split_of_notMem h, parseGroups, Option.or_eq_some_iff] at hgroups
  have hlength' := of_decide_eq_true hlength
  rcases hgroups with hgroup | ⟨-, hquad⟩
  · rw [length_parseGroup hgroup] at hlength'
    omega
  · obtain ⟨q, -, rfl⟩ := Option.map_eq_some_iff.mp hquad
    simp [IPv4.bytes] at hlength'

theorem notMem_text (q : IPv4) : ipColon ∉ q.text := by
  have hcolon (n : ℕ) : ipColon ∉ decimal n := notMem_decimal (by decide) n
  have hdot : ipColon ≠ ipDot := by decide
  simp only [IPv4.text, join, List.mem_append, List.mem_cons, hcolon, hdot, or_self,
    not_false_eq_true]

/-- The texts of an IPv4 address: with dots, and in the longer form. -/
theorem to4_parseIP_iff {s : Bytes} {q : IPv4} :
    to4 (parseIP s) = some q ↔ s = q.text ∨ parseIPv6 s = some q.mapped := by
  unfold parseIP
  cases hdotted : parseIPv4 s with
  | some q' =>
    obtain rfl := parseIPv4_eq_some_iff.mp hdotted
    rw [parseIPv6_of_notMem (notMem_text q'), ← parseIPv4_eq_some_iff, parseIPv4_text]
    simp [to4_mapped]
  | none =>
    have hnot : s ≠ q.text := by
      rintro rfl
      rw [parseIPv4_text] at hdotted
      cases hdotted
    simp only [hnot, false_or]
    cases hcolons : parseIPv6 s with
    | none =>
      simp [to4, mappedHead]
    | some ip =>
      rw [Option.getD_some, Option.some.injEq]
      constructor
      · exact to4_eq_some (length_parseIPv6 hcolons)
      · rintro rfl
        exact to4_mapped q

end GoLib
