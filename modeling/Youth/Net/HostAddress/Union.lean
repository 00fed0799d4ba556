/-
  Youth.Net.HostAddress.Union

  `HostAddress(ip, port, ipv6)`, from the text of an address to the memory of the union and
  back.

  The constructor writes one of the two structs of the union, and the getters choose the
  struct they read by the family.  For IPv4 they read what was written (`view_ofText4`).  For
  IPv6 the family that is stored is that of IPv4, so the getters take `sin6_flowinfo` for
  the address, which is zero (`view_ofText6`).
-/

import Youth.Lib.Cut
import Youth.Net.SocketFunc

namespace Youth.Net
namespace HostAddress

open Youth.Lib
open SocketFunc

/-- `HostAddress(const char *, uint16_t, bool)`, in the memory `m`. -/
def ofText (lib : Inet) (e : Endian) (ip : List Char) (port : UInt16) (ipv6 : Bool) (m : Memory) :
    Memory :=
  if ipv6 then setServerAddress6 lib e ip port m else setServerAddress lib e ip port m

/-- `operator==`; `buf` and `buf'` are the stacks of the two calls of `getIp`. -/
def equal (e : Endian) (m m' : Memory) (buf buf' : List Char) : Bool :=
  if family e m ≠ family e m' then false
  else decide (getIpAndPort e m buf = getIpAndPort e m' buf')

/-- The family that goes with the flag. -/
def familyOf (ipv6 : Bool) : Nat := if ipv6 then AF_INET6 else AF_INET

/-- The text that `inet_ntop` writes for the address that `inet_pton` reads; `none` for a
    text that is not valid. -/
def canonical (lib : Inet) (ipv6 : Bool) (ip : List Char) : Option (List Char) :=
  if ipv6 then (lib.pton6 ip).map fun bytes => inet_ntop6 (wordsOf bytes.toList)
  else (lib.pton4 ip).map fun bytes => inet_ntop4 bytes[0] bytes[1] bytes[2] bytes[3]

/-- The address the getters read, as they go by the family. -/
def view (e : Endian) (m : Memory) : Option HostAddress :=
  if family e m = AF_INET then some (.inet (m 4) (m 5) (m 6) (m 7) (SocketFunc.getPort e m))
  else if family e m = AF_INET6 then
    some (.inet6 (wordsOf (m.load 8 16)) (SocketFunc.getPort e m))
  else none

/-- The getters give the texts of that address. -/
theorem getters_of_view {e : Endian} {m : Memory} {addr : HostAddress} (h : view e m = some addr)
    (buf : List Char) : SocketFunc.getIp e m buf = addr.getIp ∧
      SocketFunc.getPort e m = addr.getPort ∧ getIpAndPort e m buf = addr.ipAndPort := by
  rw [view] at h
  have hip : SocketFunc.getIp e m buf = addr.getIp ∧ SocketFunc.getPort e m = addr.getPort := by
    rw [SocketFunc.getIp]
    split_ifs at h ⊢
    · cases h
      exact ⟨rfl, rfl⟩
    · cases h
      exact ⟨rfl, rfl⟩
  refine ⟨hip.1, hip.2, ?_⟩
  rw [getIpAndPort, hip.1, hip.2]
  rfl

/-! ## What the constructor leaves -/

section OfText

variable {lib : Inet} {e : Endian} {ip : List Char} {port : UInt16} {m : Memory}

theorem family_ofText (ipv6 : Bool) : family e (ofText lib e ip port ipv6 m) = AF_INET := by
  cases ipv6 with
  | false => exact family_fill (by decide) (by decide) _ m
  | true => exact family_fill (by decide) (by decide) _ m

theorem view_ofText4 {bytes : Vector UInt8 4} (h : lib.pton4 ip = some bytes) :
    view e (ofText lib e ip port false m) =
      some (.inet bytes[0] bytes[1] bytes[2] bytes[3] port) := by
  have hport : SocketFunc.getPort e (ofText lib e ip port false m) = port :=
    getPort_fill (by decide) _ m
  have hbyte : ∀ i (hi : i < 4), ofText lib e ip port false m (4 + i) = bytes[i] := by
    intro i hi
    have hmem : ofText lib e ip port false m =
        fill e sizeofIn AF_INET port 4 (some bytes.toList) m := by
      show setServerAddress lib e ip port m = _
      rw [setServerAddress, h]
      rfl
    rw [hmem, fill_address bytes.toList m (by simpa using hi)]
    exact Vector.getElem_toList _
  rw [view, if_pos (family_ofText false), hport, hbyte 0 (by decide), hbyte 1 (by decide),
    hbyte 2 (by decide), hbyte 3 (by decide)]

/-- The address that the getters read for IPv6 is 0.0.0.0. -/
theorem view_ofText6 : view e (ofText lib e ip port true m) = some (.inet 0 0 0 0 port) := by
  have hport : SocketFunc.getPort e (ofText lib e ip port true m) = port :=
    getPort_fill (by decide) _ m
  have hzero : ∀ i, 4 ≤ i → i < 8 → ofText lib e ip port true m i = 0 := fun i hlow hhigh =>
    fill_zero hlow (Nat.lt_trans hhigh (by decide)) _ hhigh m
  rw [view, if_pos (family_ofText true), hport, hzero 4 (by decide) (by decide),
    hzero 5 (by decide) (by decide), hzero 6 (by decide) (by decide),
    hzero 7 (by decide) (by decide)]

/-- `HostAddress(port, loopbackOnly, true)` stores the other family, and its address is read. -/
theorem view_setAnyAddress6 (loopbackOnly : Bool) :
    view e (setAnyAddress6 e port loopbackOnly m) =
      some (.inet6 (wordsOf (List.replicate 15 0 ++ [if loopbackOnly then 1 else 0])) port) := by
  have hfam : family e (setAnyAddress6 e port loopbackOnly m) = AF_INET6 :=
    family_fill (by decide) (by decide) _ m
  have hport : SocketFunc.getPort e (setAnyAddress6 e port loopbackOnly m) = port :=
    getPort_fill (by decide) _ m
  have haddress : (setAnyAddress6 e port loopbackOnly m).load 8 16 =
      List.replicate 15 0 ++ [if loopbackOnly then 1 else 0] :=
    load_fill_address (List.replicate 15 0 ++ [if loopbackOnly then 1 else 0]) m
  rw [view, if_neg (by rw [hfam]; decide), if_pos hfam, hport, haddress]

end OfText

/-! ## Addresses given back -/

/-- The object gives back an address of that family, with this text and port. -/
structure GivesBack (e : Endian) (m : Memory) (ipv6 : Bool) (text : List Char) (port : UInt16) :
    Prop where
  stored : family e m = familyOf ipv6
  ip_eq : ∀ buf, SocketFunc.getIp e m buf = text
  port_eq : SocketFunc.getPort e m = port
  both_eq : ∀ buf, getIpAndPort e m buf = text ++ ':' :: formatNat port.toNat

/-- The text and the port can be told from `ip:port`: the last colon is in front of the port. -/
theorem text_port_injective {text text' : List Char} {port port' : UInt16}
    (h : text ++ ':' :: formatNat port.toNat = text' ++ ':' :: formatNat port'.toNat) :
    text = text' ∧ port = port' := by
  have hno : ∀ port : UInt16, ':' ∉ (formatNat port.toNat).reverse := by
    intro port hin
    exact absurd (isDigit_of_mem_formatNat (List.mem_reverse.mp hin)) (by decide)
  have hreverse : ∀ (text : List Char) (port : UInt16),
      cut [':'] (text ++ ':' :: formatNat port.toNat).reverse =
        some ((formatNat port.toNat).reverse, text.reverse) := by
    intro text port
    rw [List.reverse_append, List.reverse_cons, List.append_assoc, List.singleton_append]
    exact cut_cons (hno port) text.reverse
  have hboth := (hreverse text port).symm.trans ((congrArg _ (congrArg _ h)).trans (hreverse text' port'))
  obtain ⟨hdigits, htext⟩ := Prod.mk.inj (Option.some.inj hboth)
  refine ⟨List.reverse_injective htext, ?_⟩
  exact UInt16.toNat_inj.mp (formatNat_injective (List.reverse_injective hdigits))

theorem givesBack_of_view {e : Endian} {m : Memory} {addr : HostAddress}
    (h : view e m = some addr) {ipv6 : Bool} (hfam : family e m = familyOf ipv6) :
    GivesBack e m ipv6 addr.getIp addr.getPort where
  stored := hfam
  ip_eq buf := (getters_of_view h buf).1
  port_eq := (getters_of_view h []).2.1
  both_eq buf := by rw [(getters_of_view h buf).2.2, ipAndPort_eq]

/-- Two objects of one family are equal where their texts and ports are. -/
theorem equal_iff {e : Endian} {m m' : Memory} {ipv6 : Bool} {text text' : List Char}
    {port port' : UInt16} (h : GivesBack e m ipv6 text port) (h' : GivesBack e m' ipv6 text' port')
    (buf buf' : List Char) : equal e m m' buf buf' = true ↔ text = text' ∧ port = port' := by
  rw [equal, h.stored, h'.stored, if_neg (fun hne => hne rfl), h.both_eq, h'.both_eq, decide_eq_true_iff]
  constructor
  · exact text_port_injective
  · rintro ⟨rfl, rfl⟩
    rfl

variable {lib : Inet} {e : Endian} {ip ip' text text' : List Char} {port port' : UInt16}
  {m m' : Memory}

theorem givesBack_ofText (e : Endian) (port : UInt16) (m : Memory)
    (h : canonical lib false ip = some text) :
    GivesBack e (ofText lib e ip port false m) false text port := by
  obtain ⟨bytes, hbytes, rfl⟩ := Option.map_eq_some_iff.mp h
  exact givesBack_of_view (view_ofText4 hbytes) (family_ofText false)

/-- For valid texts of one family, `HostAddress` stores the family and gives back the
    canonical text, the port and both, and compares by them, exactly for IPv4. -/
theorem round_trip_iff (ipv6 : Bool) (h : canonical lib ipv6 ip = some text)
    (h' : canonical lib ipv6 ip' = some text') :
    (GivesBack e (ofText lib e ip port ipv6 m) ipv6 text port ∧
      GivesBack e (ofText lib e ip' port' ipv6 m') ipv6 text' port' ∧
      ∀ buf buf', equal e (ofText lib e ip port ipv6 m) (ofText lib e ip' port' ipv6 m') buf buf' =
        true ↔ text = text' ∧ port = port') ↔ ipv6 = false := by
  cases ipv6 with
  | false =>
      have hfirst := givesBack_ofText e port m h
      have hsecond := givesBack_ofText e port' m' h'
      exact ⟨fun _ => rfl, fun _ => ⟨hfirst, hsecond, equal_iff hfirst hsecond⟩⟩
  | true =>
      refine ⟨fun hall => ?_, fun hno => Bool.noConfusion hno⟩
      -- the family that is stored
      have hfam := hall.1.stored
      rw [family_ofText] at hfam
      exact absurd hfam (by decide)

/-- A C library that understands two addresses of each family. -/
def fourAddresses : Inet where
  pton4 text :=
    if text = ['1', '0', '.', '0', '.', '0', '.', '1'] then some #v[10, 0, 0, 1]
    else if text = ['1', '0', '.', '0', '.', '0', '.', '2'] then some #v[10, 0, 0, 2]
    else none
  pton6 text :=
    if text = [':', ':', '1'] then some (Vector.ofFn fun i => if i.val = 15 then 1 else 0)
    else if text = [':', ':', '2'] then some (Vector.ofFn fun i => if i.val = 15 then 2 else 0)
    else none

theorem round_trip_iff_inet :
    canonical fourAddresses false ['1', '0', '.', '0', '.', '0', '.', '1'] =
      some ['1', '0', '.', '0', '.', '0', '.', '1'] ∧
    canonical fourAddresses false ['1', '0', '.', '0', '.', '0', '.', '2'] =
      some ['1', '0', '.', '0', '.', '0', '.', '2'] ∧
    GivesBack .little (ofText fourAddresses .little ['1', '0', '.', '0', '.', '0', '.', '1'] 80
      false fun _ => 0) false ['1', '0', '.', '0', '.', '0', '.', '1'] 80 := by
  have h : canonical fourAddresses false ['1', '0', '.', '0', '.', '0', '.', '1'] =
      some ['1', '0', '.', '0', '.', '0', '.', '1'] := by decide +kernel
  have h' : canonical fourAddresses false ['1', '0', '.', '0', '.', '0', '.', '2'] =
      some ['1', '0', '.', '0', '.', '0', '.', '2'] := by decide +kernel
  exact ⟨h, h', ((@round_trip_iff fourAddresses .little _ _ _ _ 80 80 (fun _ => 0) (fun _ => 0)
    false h h').mpr rfl).1⟩

/-- `::1` and `::2` are stored with the family of IPv4, read as 0.0.0.0, and equal. -/
theorem ofText_inet6 :
    canonical fourAddresses true [':', ':', '1'] = some [':', ':', '1'] ∧
    canonical fourAddresses true [':', ':', '2'] = some [':', ':', '2'] ∧
    family .little (ofText fourAddresses .little [':', ':', '1'] 80 true fun _ => 0) = AF_INET ∧
    SocketFunc.getIp .little
      (ofText fourAddresses .little [':', ':', '1'] 80 true fun _ => 0) [] =
        ['0', '.', '0', '.', '0', '.', '0'] ∧
    equal .little (ofText fourAddresses .little [':', ':', '1'] 80 true fun _ => 0)
      (ofText fourAddresses .little [':', ':', '2'] 80 true fun _ => 0) [] [] = true := by
  decide +kernel

end HostAddress
end Youth.Net
