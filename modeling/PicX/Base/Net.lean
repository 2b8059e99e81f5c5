import Mathlib.Algebra.Group.Nat.Defs
import Mathlib.Data.List.TakeWhile
import Mathlib.Tactic.Common
import PicX.Base.Text

/-!
# Socket addresses (`core::net`)

The addresses of the standard library and the parser behind `str::parse` for them. A reader takes
the characters it reads off the front and leaves them alone when it fails, as the parser's
`read_atomically` does.

* `IpAddr.parse`, `SocketAddr.parse`: the whole text, or nothing.
* `Suffix`: a reader takes from the front; it composes along a reader.
* `parse_v4`, `parse_v6`: a text that reads as an address with a port ends in a colon and digits.
-/

namespace PicX.Net

/-! ## Addresses -/

structure Ipv4Addr where
  bits : BitVec 32
  deriving DecidableEq, Repr

structure Ipv6Addr where
  bits : BitVec 128
  deriving DecidableEq, Repr

inductive IpAddr where
  | v4 (addr : Ipv4Addr)
  | v6 (addr : Ipv6Addr)
  deriving DecidableEq, Repr

/-- An address and a port; an IPv6 one has a scope too. -/
inductive SocketAddr where
  | v4 (ip : Ipv4Addr) (port : Nat)
  | v6 (ip : Ipv6Addr) (port scopeId : Nat)
  deriving DecidableEq, Repr

def Ipv4Addr.ofOctets (a b c d : Nat) : Ipv4Addr :=
  ⟨BitVec.ofNat 32 (((a * 256 + b) * 256 + c) * 256 + d)⟩

/-- The address with these groups of sixteen bits, the most significant first. -/
def Ipv6Addr.ofGroups (groups : List Nat) : Ipv6Addr :=
  ⟨BitVec.ofNat 128 (groups.foldl (fun n g => n * 65536 + g) 0)⟩

def SocketAddr.ip : SocketAddr → IpAddr
  | .v4 ip _ => .v4 ip
  | .v6 ip _ _ => .v6 ip

/-- `127.0.0.0/8`. -/
def Ipv4Addr.isLoopback (a : Ipv4Addr) : Bool := a.bits.toNat / 2 ^ 24 == 127

/-- `::1`. -/
def Ipv6Addr.isLoopback (a : Ipv6Addr) : Bool := a.bits == 1

def IpAddr.isLoopback : IpAddr → Bool
  | .v4 a => a.isLoopback
  | .v6 a => a.isLoopback

/-! ## Readers -/

/-- Reads off the front of the characters that are left, or leaves them all. -/
abbrev Reader (α : Type) := List Char → Option (α × List Char)

/-- `char::to_digit`. -/
def toDigit (radix : Nat) (c : Char) : Option Nat :=
  let digit :=
    if '0' ≤ c ∧ c ≤ '9' then some (c.toNat - '0'.toNat)
    else if 'a' ≤ c ∧ c ≤ 'z' then some (c.toNat - 'a'.toNat + 10)
    else if 'A' ≤ c ∧ c ≤ 'Z' then some (c.toNat - 'A'.toNat + 10)
    else none
  digit.bind fun d => if d < radix then some d else none

def isDigitOf (radix : Nat) (c : Char) : Bool := (toDigit radix c).isSome

/-- The number a run of digits stands for. -/
def valueOf (radix : Nat) (digits : List Char) : Nat :=
  digits.foldl (fun n c => n * radix + (toDigit radix c).getD 0) 0

def readGivenChar (target : Char) : Reader Unit
  | c :: cs => if c = target then some ((), cs) else none
  | [] => none

def readSeparator {α : Type} (separator : Char) (index : Nat) (inner : Reader α) : Reader α :=
  fun cs => if 0 < index then (readGivenChar separator cs).bind fun r => inner r.2 else inner cs

/-- Digits, as many as there are: at most `maxDigits` where that is bounded, without a zero before
others unless that is allowed, and less than `limit`. -/
def readNumber (radix : Nat) (maxDigits : Option Nat) (allowZeroPrefix : Bool) (limit : Nat) :
    Reader Nat := fun cs =>
  let digits := cs.takeWhile (isDigitOf radix)
  if digits = [] then none
  else if maxDigits.any (· < digits.length) then none
  else if allowZeroPrefix = false ∧ digits.head? = some '0' ∧ 1 < digits.length then none
  else if valueOf radix digits < limit then
    some (valueOf radix digits, cs.dropWhile (isDigitOf radix))
  else none

/-- One of the four numbers of an IPv4 address. -/
def readOctet (index : Nat) : Reader Nat :=
  readSeparator '.' index (readNumber 10 (some 3) false 256)

def readIpv4Addr : Reader Ipv4Addr := fun cs => do
  let (a, cs) ← readOctet 0 cs
  let (b, cs) ← readOctet 1 cs
  let (c, cs) ← readOctet 2 cs
  let (d, cs) ← readOctet 3 cs
  pure (.ofOctets a b c d, cs)

/-- Up to `left` groups of an IPv6 address, the first of them number `index`. The flag says that
an IPv4 address was read as the last two. -/
def readGroups : (left index : Nat) → List Char → (List Nat × Bool) × List Char
  | 0, _, cs => (([], false), cs)
  | left + 1, index, cs =>
    -- there must be at least two groups left for an IPv4 address
    match if 0 < left then readSeparator ':' index readIpv4Addr cs else none with
    | some (v4, rest) => (([v4.bits.toNat / 65536, v4.bits.toNat % 65536], true), rest)
    | none =>
      match readSeparator ':' index (readNumber 16 (some 4) true 65536) cs with
      | some (group, rest) =>
        let ((groups, ipv4), rest) := readGroups left (index + 1) rest
        ((group :: groups, ipv4), rest)
      | none => (([], false), cs)

def readIpv6Addr : Reader Ipv6Addr := fun cs =>
  let ((head, headIpv4), rest) := readGroups 8 0 cs
  if head.length = 8 then some (.ofGroups head, rest)
  -- an IPv4 part is not allowed before `::`
  else if headIpv4 then none
  else do
    let (_, rest) ← readGivenChar ':' rest
    let (_, rest) ← readGivenChar ':' rest
    -- the `::` stands for at least one group
    let ((tail, _), rest) := readGroups (8 - (head.length + 1)) 0 rest
    pure (.ofGroups (head ++ List.replicate (8 - head.length - tail.length) 0 ++ tail), rest)

def readPort : Reader Nat := fun cs => do
  let (_, cs) ← readGivenChar ':' cs
  readNumber 10 none true 65536 cs

def readScopeId : Reader Nat := fun cs => do
  let (_, cs) ← readGivenChar '%' cs
  readNumber 10 none true (2 ^ 32) cs

def readSocketAddrV4 : Reader SocketAddr := fun cs => do
  let (ip, cs) ← readIpv4Addr cs
  let (port, cs) ← readPort cs
  pure (.v4 ip port, cs)

def readSocketAddrV6 : Reader SocketAddr := fun cs => do
  let (_, cs) ← readGivenChar '[' cs
  let (ip, cs) ← readIpv6Addr cs
  let (scopeId, cs) := (readScopeId cs).getD (0, cs)
  let (_, cs) ← readGivenChar ']' cs
  let (port, cs) ← readPort cs
  pure (.v6 ip port scopeId, cs)

/-- The whole text has to be read. -/
def parseWith {α : Type} (reader : Reader α) (s : String) : Option α :=
  match reader s.toList with
  | some (a, []) => some a
  | _ => none

def IpAddr.parse : String → Option IpAddr :=
  parseWith fun cs =>
    ((readIpv4Addr cs).map fun (a, rest) => (.v4 a, rest)) <|>
      (readIpv6Addr cs).map fun (a, rest) => (.v6 a, rest)

def SocketAddr.parse : String → Option SocketAddr :=
  parseWith fun cs => readSocketAddrV4 cs <|> readSocketAddrV6 cs

/-! ## What a reader takes -/

/-- What is left is the end of what there was. -/
def Suffix {α : Type} (reader : Reader α) : Prop :=
  ∀ cs a rest, reader cs = some (a, rest) → rest <:+ cs

theorem readGivenChar_eq_some {target : Char} {cs rest : List Char} {u : Unit} :
    readGivenChar target cs = some (u, rest) ↔ cs = target :: rest := by
  cases cs with
  | nil => simp [readGivenChar]
  | cons c cs =>
    by_cases hc : c = target
    · simp [readGivenChar, hc]
    · simp [readGivenChar, hc]

theorem readGivenChar_suffix (target : Char) : Suffix (readGivenChar target) := by
  intro cs _ rest h
  rw [readGivenChar_eq_some.mp h]
  exact List.suffix_cons target rest

theorem readSeparator_suffix {α : Type} {inner : Reader α} (h : Suffix inner) (separator : Char)
    (index : Nat) : Suffix (readSeparator separator index inner) := by
  intro cs a rest hread
  by_cases hindex : 0 < index
  · rw [readSeparator, if_pos hindex] at hread
    obtain ⟨⟨_, next⟩, hsep, hinner⟩ := Option.bind_eq_some_iff.mp hread
    exact (h next a rest hinner).trans (readGivenChar_suffix separator cs _ next hsep)
  · rw [readSeparator, if_neg hindex] at hread
    exact h cs a rest hread

/-- A number is read off all the digits there are. -/
theorem readNumber_eq_some {radix limit n : Nat} {maxDigits : Option Nat} {allowZeroPrefix : Bool}
    {cs rest : List Char}
    (h : readNumber radix maxDigits allowZeroPrefix limit cs = some (n, rest)) :
    n < limit ∧ rest = cs.dropWhile (isDigitOf radix) := by
  simp only [readNumber] at h
  split_ifs at h with _ _ _ hlimit
  · simp only [Option.some.injEq, Prod.mk.injEq] at h
    exact ⟨h.1 ▸ hlimit, h.2.symm⟩

theorem readNumber_suffix (radix limit : Nat) (maxDigits : Option Nat) (allowZeroPrefix : Bool) :
    Suffix (readNumber radix maxDigits allowZeroPrefix limit) := by
  intro cs n rest h
  rw [(readNumber_eq_some h).2]
  exact List.dropWhile_suffix _

theorem readOctet_suffix (index : Nat) : Suffix (readOctet index) :=
  readSeparator_suffix (readNumber_suffix 10 256 (some 3) false) '.' index

theorem readOctet_lt {index n : Nat} {cs rest : List Char}
    (h : readOctet index cs = some (n, rest)) :
    n < 256 := by
  rw [readOctet, readSeparator] at h
  split_ifs at h
  · obtain ⟨_, _, h⟩ := Option.bind_eq_some_iff.mp h
    exact (readNumber_eq_some h).1
  · exact (readNumber_eq_some h).1

/-- An IPv4 address is four octets, each after the one before. -/
theorem readIpv4Addr_eq_some {ip : Ipv4Addr} {cs rest : List Char}
    (h : readIpv4Addr cs = some (ip, rest)) :
    ∃ a b c d cs₁ cs₂ cs₃, readOctet 0 cs = some (a, cs₁) ∧ readOctet 1 cs₁ = some (b, cs₂) ∧
      readOctet 2 cs₂ = some (c, cs₃) ∧ readOctet 3 cs₃ = some (d, rest) ∧
      ip = .ofOctets a b c d := by
  simp only [readIpv4Addr, bind, Option.bind_eq_some_iff, Prod.exists, pure, Option.some.injEq,
    Prod.mk.injEq] at h
  obtain ⟨a, cs₁, ha, b, cs₂, hb, c, cs₃, hc, d, cs₄, hd, rfl, rfl⟩ := h
  exact ⟨a, b, c, d, cs₁, cs₂, cs₃, ha, hb, hc, hd, rfl⟩

theorem readIpv4Addr_suffix : Suffix readIpv4Addr := by
  intro cs ip rest h
  obtain ⟨a, b, c, d, cs₁, cs₂, cs₃, ha, hb, hc, hd, _⟩ := readIpv4Addr_eq_some h
  exact (readOctet_suffix 3 _ _ _ hd).trans ((readOctet_suffix 2 _ _ _ hc).trans
    ((readOctet_suffix 1 _ _ _ hb).trans (readOctet_suffix 0 _ _ _ ha)))

theorem readGroups_suffix (left index : Nat) (cs : List Char) :
    (readGroups left index cs).2 <:+ cs := by
  induction left generalizing index cs with
  | zero => exact List.suffix_rfl
  | succ left ih =>
    rw [readGroups]
    split
    · next v4 rest hv4 =>
      split_ifs at hv4
      exact readSeparator_suffix readIpv4Addr_suffix ':' index _ _ _ hv4
    · split
      · next group rest hgroup =>
        exact (ih (index + 1) rest).trans
          (readSeparator_suffix (readNumber_suffix 16 65536 (some 4) true) ':' index _ _ _ hgroup)
      · exact List.suffix_rfl

theorem readIpv6Addr_suffix : Suffix readIpv6Addr := by
  intro cs ip rest h
  have hhead := readGroups_suffix 8 0 cs
  simp only [readIpv6Addr] at h
  split_ifs at h
  · simp only [Option.some.injEq, Prod.mk.injEq] at h
    exact h.2 ▸ hhead
  · simp only [bind, Option.bind_eq_some_iff, Prod.exists, pure, Option.some.injEq,
      Prod.mk.injEq] at h
    obtain ⟨_, cs₁, h₁, _, cs₂, h₂, _, rfl⟩ := h
    exact (readGroups_suffix _ _ _).trans ((readGivenChar_suffix _ _ _ _ h₂).trans
      ((readGivenChar_suffix _ _ _ _ h₁).trans hhead))

theorem readScopeId_suffix : Suffix readScopeId := by
  intro cs n rest h
  simp only [readScopeId, bind, Option.bind_eq_some_iff, Prod.exists] at h
  obtain ⟨_, cs₁, h₁, h⟩ := h
  exact (readNumber_suffix _ _ _ _ _ _ _ h).trans (readGivenChar_suffix _ _ _ _ h₁)

/-- A port at the end is a colon and digits. -/
theorem readPort_end {cs : List Char} {port : Nat} (h : readPort cs = some (port, [])) :
    ∃ digits, cs = ':' :: digits ∧ ':' ∉ digits := by
  simp only [readPort, bind, Option.bind_eq_some_iff, Prod.exists] at h
  obtain ⟨_, digits, hcolon, h⟩ := h
  refine ⟨digits, readGivenChar_eq_some.mp hcolon, ?_⟩
  intro hmem
  have hall := List.dropWhile_eq_nil_iff.mp (readNumber_eq_some h).2.symm
  exact absurd (hall ':' hmem) (by decide)

theorem parse_cases {s : String} {a : SocketAddr} (h : SocketAddr.parse s = some a) :
    readSocketAddrV4 s.toList = some (a, []) ∨ readSocketAddrV6 s.toList = some (a, []) := by
  rw [SocketAddr.parse, parseWith] at h
  split at h
  · next a' heq =>
    cases h
    cases hv4 : readSocketAddrV4 s.toList with
    | some r =>
      left
      rw [hv4] at heq
      exact heq
    | none =>
      right
      rw [hv4] at heq
      exact heq
  · cases h

/-- An IPv4 socket address starts with the host. -/
theorem readSocketAddrV4_end {cs : List Char} {a : SocketAddr}
    (h : readSocketAddrV4 cs = some (a, [])) :
    ∃ ip port digits, a = .v4 ip port ∧ readIpv4Addr cs = some (ip, ':' :: digits) ∧
      ':' ∉ digits := by
  simp only [readSocketAddrV4, bind, Option.bind_eq_some_iff, Prod.exists, pure,
    Option.some.injEq, Prod.mk.injEq] at h
  obtain ⟨ip, rest, hip, port, end_, hport, rfl, rfl⟩ := h
  obtain ⟨digits, rfl, hdigits⟩ := readPort_end hport
  exact ⟨ip, port, digits, rfl, hip, hdigits⟩

/-- An IPv6 socket address has its host between brackets. -/
theorem readSocketAddrV6_end {cs : List Char} {a : SocketAddr}
    (h : readSocketAddrV6 cs = some (a, [])) :
    ∃ ip port scopeId inner host rest digits, a = .v6 ip port scopeId ∧ cs = '[' :: inner ∧
      readIpv6Addr inner = some (ip, rest) ∧ inner = host ++ ']' :: ':' :: digits ∧
      ':' ∉ digits := by
  simp only [readSocketAddrV6, bind, Option.bind_eq_some_iff, Prod.exists, pure,
    Option.some.injEq, Prod.mk.injEq] at h
  obtain ⟨_, inner, hopen, ip, rest, hip, _, afterClose, hclose, port, end_, hport, rfl, rfl⟩ := h
  obtain ⟨digits, rfl, hdigits⟩ := readPort_end hport
  have hscope : ((readScopeId rest).getD (0, rest)).2 <:+ rest := by
    cases hs : readScopeId rest with
    | none => exact List.suffix_rfl
    | some r => exact readScopeId_suffix rest r.1 r.2 hs
  rw [readGivenChar_eq_some.mp hclose] at hscope
  obtain ⟨host, hhost⟩ := hscope.trans (readIpv6Addr_suffix inner ip rest hip)
  exact ⟨ip, port, _, inner, host, rest, digits, rfl, readGivenChar_eq_some.mp hopen, hip,
    hhost.symm, hdigits⟩

end PicX.Net
