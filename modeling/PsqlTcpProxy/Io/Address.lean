import PsqlTcpProxy.Io.Endianness
import PsqlTcpProxy.Io.Event
import PsqlTcpProxy.Library.Decimal

/-!
# Addresses

`io/v4.cpp`, and the conversions of `io/acceptor.cpp` between an `io::ip::v4` and a
`sockaddr_in`.  A `std::string` is a list of characters, and `NUL` is a character like any
other until `c_str` is asked for.

`inet_addr` and `inet_ntop` are not part of the source.  They are an `Inet`, and what is
used of them is that one reads what the other writes, for hosts as `dottedQuad` writes them
(`Inet.Inverse`).

The two conversions are not inverse to each other.  `make_v4` takes the whole buffer for the
host, and it does not swap the bytes of the port back; `makeV4_getSockaddrIn` says what
comes out.
-/

namespace PsqlTcpProxy
namespace Io

open Library

/-- `io::ip::v4` -/
structure V4 where
  /-- `_host` -/
  host : List Char
  /-- `_port` -/
  port : UInt16
  deriving DecidableEq

/-- `std::isspace` -/
def isSpace (c : Char) : Bool := c = ' ' || 9 ≤ c.toNat && c.toNat ≤ 13

/-- `INT_MAX` -/
def INT_MAX : ℤ := 2147483647

/-- What `std::stoi` makes of the text behind the sign. -/
def signed (negative : Bool) (s : List Char) : Except Exception ℤ :=
  match readDecimal s with
  | none => .error (.std "stoi")
  | some n =>
    let value : ℤ := if negative then -n else n
    if -INT_MAX - 1 ≤ value ∧ value ≤ INT_MAX then .ok value else .error (.std "stoi")

/-- `std::stoi` -/
def stoi (s : List Char) : Except Exception ℤ :=
  match s.dropWhile isSpace with
  | '-' :: s => signed true s
  | '+' :: s => signed false s
  | s => signed false s

/-- `v4::v4` -/
def V4.make (host port : List Char) : Except Exception V4 := do
  let port ← stoi port
  return { host, port := UInt16.ofInt port }

/-- `AF_INET` -/
def AF_INET : UInt16 := 2

/-- `INET_ADDRSTRLEN` -/
def INET_ADDRSTRLEN : ℕ := 16

/-- The character that ends a C string. -/
def NUL : Char := Char.ofNat 0

/-- `sockaddr_in`, in a `sockaddr_storage` too. -/
structure SockaddrIn where
  /-- `sin_family` -/
  sinFamily : UInt16
  /-- `sin_port` -/
  sinPort : UInt16
  /-- `sin_addr.s_addr` -/
  sinAddr : UInt32
  deriving DecidableEq

/-- The conversions of the C library. -/
structure Inet where
  /-- `::inet_addr` -/
  inetAddr : List Char → UInt32
  /-- The text that `inet_ntop` writes for an address of the family `AF_INET`. -/
  presentation : UInt32 → List Char

/-- `inet_ntop`: the buffer after the call.  Nothing is written if the text and its end have no
room. -/
def Inet.inetNtop (inet : Inet) (family : UInt16) (addr : UInt32) (dst : List Char) :
    List Char :=
  let text := inet.presentation addr
  if family = AF_INET ∧ text.length < dst.length then text ++ NUL :: dst.drop (text.length + 1)
  else dst

/-- `std::string::c_str` -/
def cStr (s : List Char) : List Char := s.takeWhile (· ≠ NUL)

/-- `::htons`, where numbers are stored with their low byte first -/
def htons (n : UInt16) : UInt16 := (n <<< 8) ||| (n >>> 8)

/-- `_get_sockaddr_in` -/
def getSockaddrIn (inet : Inet) (address : V4) : SockaddrIn :=
  { sinFamily := AF_INET
    sinAddr := inet.inetAddr (cStr address.host)
    sinPort := htons address.port }

/-- `get_in_port` -/
def getInPort (sa : SockaddrIn) : UInt16 := sa.sinPort

/-- `make_v4` -/
def makeV4 (inet : Inet) (sa : SockaddrIn) : Except Exception V4 :=
  let connAddr :=
    inet.inetNtop sa.sinFamily sa.sinAddr (List.replicate INET_ADDRSTRLEN NUL)
  let host := connAddr
  let port := getInPort sa
  let sport := decimal port.toNat
  V4.make host sport

/-! ## The port as a text -/

theorem signed_decimal {n : ℕ} (hn : n ≤ INT_MAX) : signed false (decimal n) = .ok (n : ℤ) := by
  have hlow : -INT_MAX - 1 ≤ (n : ℤ) := by
    rw [INT_MAX]
    omega
  rw [signed, readDecimal_decimal]
  simp only [Bool.false_eq_true, if_false]
  exact if_pos ⟨hlow, hn⟩

/-- A digit is no space and no sign. -/
theorem stoi_eq_signed {c : Char} (hc : c.isDigit = true) (s : List Char) :
    stoi (c :: s) = signed false (c :: s) := by
  have hspace : ¬ isSpace c = true := by
    intro hspace
    simp only [Char.isDigit, isSpace, Bool.and_eq_true, Bool.or_eq_true, decide_eq_true_eq,
      ge_iff_le, UInt32.le_iff_toNat_le] at hc hspace
    rcases hspace with rfl | hspace
    · exact absurd hc (by decide)
    · have hval : c.toNat = c.val.toNat := rfl
      have hlow : 48 ≤ c.val.toNat := hc.1
      omega
  rw [stoi, List.dropWhile_cons_of_neg hspace]
  split
  · rename_i heq
    obtain ⟨rfl, -⟩ := List.cons.inj heq
    cases hc
  · rename_i heq
    obtain ⟨rfl, -⟩ := List.cons.inj heq
    cases hc
  · rfl

/-- `std::stoi` reads what `std::to_string` writes. -/
theorem stoi_decimal {n : ℕ} (hn : n ≤ INT_MAX) : stoi (decimal n) = .ok (n : ℤ) := by
  rcases hdigits : decimal n with _ | ⟨c, s⟩
  · exact absurd hdigits (decimal_ne_nil n)
  · have hc : c.isDigit = true := isDigit_of_mem_decimal (hdigits ▸ List.mem_cons_self)
    rw [stoi_eq_signed hc, ← hdigits]
    exact signed_decimal hn

/-- **Every port** survives as a text. -/
theorem V4.make_decimal (host : List Char) (port : UInt16) :
    V4.make host (decimal port.toNat) = .ok ⟨host, port⟩ := by
  have hlt := port.toNat_lt
  have hport : UInt16.ofInt (port.toNat : ℤ) = port := by
    refine UInt16.toNat_inj.mp ?_
    rw [UInt16.ofInt, UInt16.toNat_ofNat']
    omega
  have hmax : (port.toNat : ℤ) ≤ INT_MAX := by
    rw [INT_MAX]
    omega
  rw [V4.make, stoi_decimal hmax]
  exact congrArg (fun n => Except.ok (V4.mk host n)) hport

/-! ## The port as a number -/

theorem htons_toNat (n : UInt16) : (htons n).toNat = n.toNat % 256 * 256 + n.toNat / 256 := by
  have hlt := n.toNat_lt
  have hhigh : n.toNat >>> 8 = n.toNat / 256 := Nat.shiftRight_eq_div_pow _ _
  have hlow : n.toNat <<< 8 % 2 ^ 16 = (n.toNat % 256) <<< 8 := by
    rw [Nat.shiftLeft_eq, Nat.shiftLeft_eq]
    omega
  rw [htons, UInt16.toNat_or, UInt16.toNat_shiftLeft, UInt16.toNat_shiftRight]
  show n.toNat <<< 8 % 2 ^ 16 ||| n.toNat >>> 8 = _
  rw [hlow, hhigh, shiftLeft_or_byte (by omega)]

/-- A port whose bytes are equal is what it is either way. -/
theorem htons_eq_iff (n : UInt16) : htons n = n ↔ n.toNat / 256 = n.toNat % 256 := by
  have hlt := n.toNat_lt
  rw [← UInt16.toNat_inj, htons_toNat]
  omega

/-! ## Hosts -/

/-- Four octets, in canonical form. -/
def dottedQuad (a b c d : UInt8) : List Char :=
  ['.'].intercalate ([a, b, c, d].map fun octet => decimal octet.toNat)

/-- A host in canonical form. -/
def Canonical (host : List Char) : Prop := ∃ a b c d, host = dottedQuad a b c d

theorem dottedQuad_eq (a b c d : UInt8) : dottedQuad a b c d = decimal a.toNat ++ '.' ::
    (decimal b.toNat ++ '.' :: (decimal c.toNat ++ '.' :: decimal d.toNat)) := by
  simp [dottedQuad]

theorem Canonical.length_le {host : List Char} (h : Canonical host) : host.length ≤ 15 := by
  have hdecimal : ∀ octet : UInt8, (decimal octet.toNat).length ≤ 3 := by
    intro octet
    have hlt := octet.toNat_lt
    exact (length_decimal_le_iff (by decide)).mpr (by omega)
  obtain ⟨a, b, c, d, rfl⟩ := h
  have ha := hdecimal a
  have hb := hdecimal b
  have hc := hdecimal c
  have hd := hdecimal d
  rw [dottedQuad_eq]
  simp only [List.length_append, List.length_cons]
  omega

theorem Canonical.nul_notMem {host : List Char} (h : Canonical host) : NUL ∉ host := by
  have hdecimal : ∀ n, NUL ∉ decimal n := fun n => notMem_decimal rfl
  have hdot : NUL ≠ '.' := by decide
  obtain ⟨a, b, c, d, rfl⟩ := h
  rw [dottedQuad_eq]
  simp only [List.mem_append, List.mem_cons, hdecimal, hdot, or_self, not_false_eq_true]

/-- `c_str` stops at the first `NUL`. -/
theorem cStr_append_replicate {host : List Char} (h : NUL ∉ host) (n : ℕ) :
    cStr (host ++ List.replicate n NUL) = host := by
  refine takeWhile_append_of_head (fun c hc => ?_) fun c hc => ?_
  · refine decide_eq_true ?_
    rintro rfl
    exact h hc
  · cases n with
    | zero => cases hc
    | succ n =>
      obtain rfl := Option.some.inj hc
      rfl

theorem cStr_eq {host : List Char} (h : NUL ∉ host) : cStr host = host := by
  have hnone := cStr_append_replicate h 0
  rwa [List.replicate_zero, List.append_nil] at hnone

/-! ## There and back -/

/-- `inet_ntop` writes back the host that `inet_addr` has read. -/
def Inet.Inverse (inet : Inet) : Prop :=
  ∀ host, Canonical host → inet.presentation (inet.inetAddr host) = host

/-- **What `make_v4` makes of a `sockaddr_in`**: the whole buffer and the swapped port. -/
theorem makeV4_getSockaddrIn {inet : Inet} (hinverse : inet.Inverse) {address : V4}
    (hhost : Canonical address.host) :
    makeV4 inet (getSockaddrIn inet address) =
      .ok ⟨address.host ++ List.replicate (INET_ADDRSTRLEN - address.host.length) NUL,
        htons address.port⟩ := by
  have hlength := hhost.length_le
  have htext : inet.presentation (inet.inetAddr (cStr address.host)) = address.host := by
    rw [cStr_eq hhost.nul_notMem]
    exact hinverse address.host hhost
  have hbuffer : inet.inetNtop AF_INET (inet.inetAddr (cStr address.host))
      (List.replicate INET_ADDRSTRLEN NUL) =
        address.host ++ List.replicate (INET_ADDRSTRLEN - address.host.length) NUL := by
    have hroom : address.host.length < INET_ADDRSTRLEN := Nat.lt_succ_of_le hlength
    have hrest : INET_ADDRSTRLEN - address.host.length =
        INET_ADDRSTRLEN - (address.host.length + 1) + 1 := by omega
    rw [Inet.inetNtop]
    simp only [htext]
    rw [if_pos ⟨trivial, by rw [List.length_replicate]; exact hroom⟩, List.drop_replicate, hrest]
    rfl
  rw [makeV4, getSockaddrIn, getInPort, hbuffer]
  exact V4.make_decimal _ _

/-- **No address comes back.**  The host that comes back is longer, though the same up to its
first `NUL`; the port is the same only if its two bytes are. -/
theorem address_changes {inet : Inet} (hinverse : inet.Inverse) (address : V4)
    (hhost : Canonical address.host) :
    ∃ back, makeV4 inet (getSockaddrIn inet address) = .ok back ∧
      ¬ (back.host = address.host ∧ back.port = address.port) ∧
      back.host ≠ address.host ∧ cStr back.host = address.host ∧
      (back.port = address.port ↔ address.port.toNat / 256 = address.port.toNat % 256) := by
  have hlength := hhost.length_le
  have hlonger : address.host ++ List.replicate (INET_ADDRSTRLEN - address.host.length) NUL ≠
      address.host := by
    intro heq
    have hsame := congrArg List.length heq
    rw [List.length_append, List.length_replicate, INET_ADDRSTRLEN] at hsame
    omega
  exact ⟨_, makeV4_getSockaddrIn hinverse hhost, fun hand => hlonger hand.1, hlonger,
    cStr_append_replicate hhost.nul_notMem _, htons_eq_iff address.port⟩

/-! ## Octets -/

/-- One octet of an address, the first in its low byte. -/
def octetAt (addr : UInt32) (k : ℕ) : UInt8 := UInt8.ofNat (addr.toNat / 256 ^ k)

/-- The conversions on canonical hosts. -/
def quadInet : Inet where
  inetAddr host :=
    match (host.splitOn '.').map readDecimal with
    | [some a, some b, some c, some d] => UInt32.ofNat (((d * 256 + c) * 256 + b) * 256 + a)
    | _ => 0xFFFFFFFF
  presentation addr :=
    dottedQuad (octetAt addr 0) (octetAt addr 1) (octetAt addr 2) (octetAt addr 3)

theorem inetAddr_dottedQuad (a b c d : UInt8) :
    quadInet.inetAddr (dottedQuad a b c d) = UInt32.ofNat (uint32Of d c b a) := by
  have hsplit : (dottedQuad a b c d).splitOn '.' =
      [a, b, c, d].map fun octet => decimal octet.toNat := by
    refine List.splitOn_intercalate '.' (fun l hl => ?_) (List.cons_ne_nil _ _)
    obtain ⟨octet, -, rfl⟩ := List.mem_map.mp hl
    exact notMem_decimal rfl
  simp only [quadInet, hsplit, List.map_cons, List.map_nil, readDecimal_decimal]
  rfl

theorem quadInet_inverse : quadInet.Inverse := by
  rintro host ⟨a, b, c, d, rfl⟩
  have ha := a.toNat_lt
  have hb := b.toNat_lt
  have hc := c.toNat_lt
  have hd := d.toNat_lt
  have haddr : (UInt32.ofNat (uint32Of d c b a)).toNat = uint32Of d c b a := by
    rw [UInt32.toNat_ofNat', Nat.mod_eq_of_lt (uint32Of_lt d c b a)]
  have hoctet : ∀ (k : ℕ) (octet : UInt8), uint32Of d c b a / 256 ^ k % 256 = octet.toNat →
      octetAt (UInt32.ofNat (uint32Of d c b a)) k = octet := by
    intro k octet hk
    refine UInt8.toNat_inj.mp ?_
    rw [octetAt, haddr, UInt8.toNat_ofNat']
    exact hk
  rw [inetAddr_dottedQuad]
  show dottedQuad _ _ _ _ = _
  rw [hoctet 0 a, hoctet 1 b, hoctet 2 c, hoctet 3 d]
  all_goals
    unfold uint32Of
    omega

/-- `127.0.0.1:80` -/
def loopback : V4 := { host := dottedQuad 127 0 0 1, port := 80 }

theorem loopback_changes :
    ∃ back, makeV4 quadInet (getSockaddrIn quadInet loopback) = .ok back ∧
      ¬ (back.host = loopback.host ∧ back.port = loopback.port) ∧
      back.host ≠ loopback.host ∧ cStr back.host = loopback.host ∧
      (back.port = loopback.port ↔ loopback.port.toNat / 256 = loopback.port.toNat % 256) :=
  address_changes quadInet_inverse loopback ⟨127, 0, 0, 1, rfl⟩

/-- **Seven `NUL`s and port 20480.** -/
theorem loopback_comes_back :
    makeV4 quadInet (getSockaddrIn quadInet loopback) =
        .ok ⟨dottedQuad 127 0 0 1 ++ List.replicate 7 NUL, 20480⟩ ∧
      dottedQuad 127 0 0 1 ++ List.replicate 7 NUL ≠ loopback.host ∧
      (20480 : UInt16) ≠ loopback.port := by
  decide

end Io
end PsqlTcpProxy
