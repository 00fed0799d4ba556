/-
  Youth.Net.SocketFunc

  The byte order and the addresses of `youth/net/SocketFunc.cpp`.

  An address is read and written through two structs that lie over each other,
  `sockaddr_in` and `sockaddr_in6`, so it is modelled by its memory.  Both have the family
  at 0 and the port, in network order, at 2; the IPv4 address is at 4, where the other has
  `sin6_flowinfo`, and the IPv6 address at 8.  The four setters write a struct in the same
  way (`fill`), with a family, an address and the place for it of their own.

  `inet_pton` belongs to the C library: it is a parameter, which gives the bytes of a valid
  text.
-/

import Youth.Lib.Memory
import Youth.Net.HostAddress

namespace Youth.Net

open Youth.Lib

/-- `inet_pton` for the two families; `none` for a text that is not valid. -/
structure Inet where
  pton4 : List Char → Option (Vector UInt8 4)
  pton6 : List Char → Option (Vector UInt8 16)

namespace SocketFunc

/-! ## Byte order -/

/-- `hostToNetwork16` and its like, by the width in bytes: `htobe16`. -/
def hostToNetwork (e : Endian) (w host : Nat) : Nat := e.value (beBytes w host)

/-- `networkToHost16` and its like: `be16toh`. -/
def networkToHost (e : Endian) (w net : Nat) : Nat := beNat (e.image w net)

/-- What goes out has the big-endian bytes in memory. -/
theorem image_hostToNetwork (e : Endian) (w host : Nat) :
    e.image w (hostToNetwork e w host) = beBytes w host :=
  e.image_value (length_beBytes w host)

theorem hostToNetwork_lt (e : Endian) (w host : Nat) : hostToNetwork e w host < 256 ^ w :=
  e.value_lt (length_beBytes w host)

/-- What comes in is the number of its bytes in memory, the first one the highest. -/
theorem networkToHost_value (e : Endian) {w : Nat} {bs : List UInt8} (h : bs.length = w) :
    networkToHost e w (e.value bs) = beNat bs := by
  rw [networkToHost, e.image_value h]

/-! ## Writing an address -/

def AF_INET : Nat := 2

def AF_INET6 : Nat := 10

/-- Zeros for the whole struct, then its family, its port and its address; an address that
    was not understood is logged and left out. -/
def fill (e : Endian) (size family : Nat) (port : UInt16) (offset : Nat)
    (address : Option (List UInt8)) (m : Memory) : Memory :=
  let m := m.store 0 (List.replicate size 0)
  let m := m.store 0 (e.image 2 family)
  let m := m.store 2 (e.image 2 (hostToNetwork e 2 port.toNat))
  match address with
  | some bytes => m.store offset bytes
  | none => m

/-- `sizeof(struct sockaddr_in)` -/
def sizeofIn : Nat := 16

/-- `sizeof(struct sockaddr_in6)` -/
def sizeofIn6 : Nat := 28

/-- `setServerAddress(uint16_t, sockaddr_in *, bool)`; `INADDR_LOOPBACK` is 127.0.0.1. -/
def setAnyAddress (e : Endian) (port : UInt16) (loopbackOnly : Bool) : Memory → Memory :=
  fill e sizeofIn AF_INET port 4 (if loopbackOnly then some [127, 0, 0, 1] else some [0, 0, 0, 0])

/-- `setServerAddress(uint16_t, sockaddr_in6 *, bool)`; `in6addr_loopback` is ::1. -/
def setAnyAddress6 (e : Endian) (port : UInt16) (loopbackOnly : Bool) : Memory → Memory :=
  fill e sizeofIn6 AF_INET6 port 8
    (some (List.replicate 15 0 ++ [if loopbackOnly then 1 else 0]))

/-- `setServerAddress(const char *, uint16_t, sockaddr_in *)` -/
def setServerAddress (lib : Inet) (e : Endian) (ip : List Char) (port : UInt16) :
    Memory → Memory :=
  fill e sizeofIn AF_INET port 4 ((lib.pton4 ip).map (·.toList))

/-- `setServerAddress(const char *, uint16_t, sockaddr_in6 *)`.  The family is `AF_INET`
    here as well. -/
def setServerAddress6 (lib : Inet) (e : Endian) (ip : List Char) (port : UInt16) :
    Memory → Memory :=
  fill e sizeofIn6 AF_INET port 8 ((lib.pton6 ip).map (·.toList))

/-! ## Reading an address -/

/-- `sa_family` -/
def family (e : Endian) (m : Memory) : Nat := e.value (m.load 0 2)

/-- The words of an IPv6 address. -/
def wordsOf (bytes : List UInt8) : Vector UInt16 8 :=
  Vector.ofFn fun i => UInt16.ofNat (beNat ((bytes.drop (2 * i.val)).take 2))

/-- `getIp`; `buf` is what the array on the stack holds before, where the family is neither. -/
def getIp (e : Endian) (m : Memory) (buf : List Char) : List Char :=
  if family e m = AF_INET then HostAddress.inet_ntop4 (m 4) (m 5) (m 6) (m 7)
  else if family e m = AF_INET6 then HostAddress.inet_ntop6 (wordsOf (m.load 8 16))
  else buf

def getPort (e : Endian) (m : Memory) : UInt16 :=
  UInt16.ofNat (networkToHost e 2 (e.value (m.load 2 2)))

def getIpAndPort (e : Endian) (m : Memory) (buf : List Char) : List Char :=
  getIp e m buf ++ snprintf 12 (':' :: formatNat (getPort e m).toNat)

/-! ## What is read of what was written -/

section Fill

variable {e : Endian} {size fam : Nat} {port : UInt16} {offset : Nat}

/-- The address touches nothing before its place. -/
theorem fill_before (address : Option (List UInt8)) (m : Memory) {i : Nat} (hi : i < offset) :
    fill e size fam port offset address m i = fill e size fam port offset none m i := by
  cases address with
  | none => rfl
  | some bytes => exact Memory.store_other _ (.inl hi)

theorem load_fill_before (address : Option (List UInt8)) (m : Memory) {a n : Nat}
    (h : a + n ≤ offset) : (fill e size fam port offset address m).load a n =
      (fill e size fam port offset none m).load a n := by
  apply List.map_congr_left
  intro i hi
  have hlt := List.mem_range.mp hi
  exact fill_before address m (by omega)

/-- The family, unless the address lies over it. -/
theorem family_fill (hfam : fam < 256 ^ 2) (hoffset : 4 ≤ offset) (address : Option (List UInt8))
    (m : Memory) : family e (fill e size fam port offset address m) = fam := by
  have hlen := e.length_image 2 fam
  rw [family, load_fill_before address m (by omega)]
  -- the port is written behind the family
  show e.value ((((m.store 0 _).store 0 (e.image 2 fam)).store 2 _).load 0 2) = fam
  have hsame := Memory.load_store_same (m.store 0 (List.replicate size 0)) 0 (e.image 2 fam)
  rw [hlen] at hsame
  rw [Memory.load_store_disjoint _ (.inl (Nat.le_refl 2)), hsame, e.value_image hfam]

theorem getPort_fill (hoffset : 4 ≤ offset) (address : Option (List UInt8)) (m : Memory) :
    getPort e (fill e size fam port offset address m) = port := by
  have hlen := e.length_image 2 (hostToNetwork e 2 port.toNat)
  have hport : port.toNat < 256 ^ 2 := port.toNat_lt
  have hsame := Memory.load_store_same
    ((m.store 0 (List.replicate size 0)).store 0 (e.image 2 fam)) 2
    (e.image 2 (hostToNetwork e 2 port.toNat))
  rw [hlen] at hsame
  have hload : (fill e size fam port offset none m).load 2 2 =
      e.image 2 (hostToNetwork e 2 port.toNat) := hsame
  rw [getPort, load_fill_before address m (by omega), hload, networkToHost_value e hlen,
    image_hostToNetwork, beNat_beBytes, Nat.mod_eq_of_lt hport, UInt16.ofNat_toNat]

/-- Between the port and the address the struct is zero. -/
theorem fill_zero {i : Nat} (hlow : 4 ≤ i) (hsize : i < size) (address : Option (List UInt8))
    (hi : i < offset) (m : Memory) : fill e size fam port offset address m i = 0 := by
  have hfam := e.length_image 2 fam
  have hport := e.length_image 2 (hostToNetwork e 2 port.toNat)
  have hlen : i < (List.replicate size (0 : UInt8)).length := by simpa using hsize
  have hzero := Memory.store_at m 0 hlen
  rw [Nat.zero_add] at hzero
  rw [fill_before address m hi]
  show ((m.store 0 (List.replicate size 0)).store 0 (e.image 2 fam)).store 2
    (e.image 2 (hostToNetwork e 2 port.toNat)) i = 0
  rw [Memory.store_other _ (.inr (by omega)), Memory.store_other _ (.inr (by omega)), hzero,
    List.getElem_replicate]

theorem fill_address (bytes : List UInt8) (m : Memory) {i : Nat} (hi : i < bytes.length) :
    fill e size fam port offset (some bytes) m (offset + i) = bytes[i] :=
  Memory.store_at _ _ hi

theorem load_fill_address (bytes : List UInt8) (m : Memory) :
    (fill e size fam port offset (some bytes) m).load offset bytes.length = bytes :=
  Memory.load_store_same _ _ _

end Fill

end SocketFunc
end Youth.Net
