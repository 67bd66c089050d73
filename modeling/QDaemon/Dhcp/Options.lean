import QDaemon.Bytes.Space

/-!
# Options of a DHCP packet as strings

An option is a code, a length and that many bytes of data.  A caller that wants an
option as a string passes a buffer, which takes the data and a zero byte behind it.
What is written is kept as a list of stores at offsets of that buffer, so that a store
behind its end is not lost.
-/

namespace QDaemon.Dhcp

open Bytes

/-- `DHCP_OPT_PAD`, `DHCP_OPT_HOSTNAME` and `DHCP_OPT_END`. -/
def optPad : Byte := 0

@[inherit_doc optPad]
def optHostname : Byte := 12

@[inherit_doc optPad]
def optEnd : Byte := 255

/-- `DHCP_MAX_OPTIONS_SIZE`, the length of the field with the options. -/
def maxOptionsSize : Nat := 308

/-- The loop of `dhcp_option_find_in_packet`: the index of the first option with this
code.  The bytes after the field are those that follow the packet in memory. -/
def findFrom (options : Nat → Byte) (code : Byte) (i : Nat) : Option Nat :=
  if inside : i < maxOptionsSize ∧ options i ≠ optEnd then
    if options i = optPad then findFrom options code (i + 1)
    else if i + 1 ≥ maxOptionsSize then none
    else if options i = code then some i
    else findFrom options code (i + 2 + (options (i + 1)).toNat)
  else none
termination_by maxOptionsSize - i

/-- A write to the buffer of the caller. -/
structure Store where
  offset : Nat
  data : List Byte
deriving DecidableEq

def dhcpOptionFindInPacket (options : Nat → Byte) (code : Byte) (buflen : Nat) : List Store × Int :=
  match findFrom options code 0 with
  | none => ([], -1)
  | some i =>
      let optLen := (options (i + 1)).toNat
      (if optLen ≤ buflen then [⟨0, contents options ⟨i + 2, optLen⟩⟩] else [], optLen)

def dhcpOptionGetStringFromPacket (options : Nat → Byte) (code : Byte) (buflen : Nat) :
    List Store × Int :=
  if buflen = 0 then ([], -1)
  else
    let found := dhcpOptionFindInPacket options code (buflen - 1)
    if found.2 > 0 then (found.1 ++ [⟨found.2.toNat, [0]⟩], found.2)
    else (found.1 ++ [⟨0, [0]⟩], -1)

/-- The buffer after the stores. -/
def written (buffer : Nat → Byte) (stores : List Store) : Nat → Byte :=
  stores.foldl (fun bytes store => overwrite bytes store.offset store.data) buffer

/-- What a caller with a buffer of this length relies on, for the stores of a call and
its result. -/
structure Fits (options : Nat → Byte) (code : Byte) (buflen : Nat) (buffer : Nat → Byte)
    (call : List Store × Int) : Prop where
  inside : ∀ store ∈ call.1, store.offset + store.data.length ≤ buflen
  terminated : ∃ i < buflen, written buffer call.1 i = 0
  returned : ∀ length : Nat, call.2 = length → ∃ i ∈ findFrom options code 0,
    i + 2 + length ≤ maxOptionsSize ∧
      contents (written buffer call.1) ⟨0, length⟩ = contents options ⟨i + 2, length⟩

variable {options buffer : Nat → Byte} {code : Byte} {buflen i : Nat}

theorem findFrom_lt {start : Nat} (found : findFrom options code start = some i) :
    i + 1 < maxOptionsSize := by
  fun_induction findFrom options code start with
  | case1 start _ _ ih => exact ih found
  | case2 | case5 => cases found
  | case3 start _ _ room =>
    cases found
    exact Nat.lt_of_not_le room
  | case4 start _ _ _ _ ih => exact ih found

theorem written_terminator (stores : List Store) (offset : Nat) :
    written buffer (stores ++ [⟨offset, [0]⟩]) offset = 0 := by
  simp [written, overwrite]

/-- The data of an option that is not empty, and the zero byte behind it. -/
theorem contents_written_data (offset length : Nat) :
    contents (written buffer [⟨0, contents options ⟨offset, length⟩⟩, ⟨length, [0]⟩]) ⟨0, length⟩ =
      contents options ⟨offset, length⟩ := by
  have apart : Region.Apart ⟨length, [(0 : Byte)].length⟩ ⟨0, length⟩ := .inr (by simp)
  have copied := contents_overwrite_self buffer 0 (contents options ⟨offset, length⟩)
  rw [length_contents] at copied
  exact (contents_overwrite_apart apart).trans copied

/-- Without a string the buffer begins with the zero byte. -/
theorem fits_empty {stores : List Store} (positive : 0 < buflen)
    (inside : ∀ store ∈ stores, store.offset + store.data.length ≤ buflen) :
    Fits options code buflen buffer (stores ++ [⟨0, [0]⟩], -1) := by
  refine ⟨?_, ⟨0, positive, written_terminator stores 0⟩, ?_⟩
  · exact List.forall_mem_append.mpr ⟨inside, List.forall_mem_singleton.mpr positive⟩
  · rintro length ⟨⟩

/-- The buffer keeps the caller's string exactly if the first option with this code is
shorter than the buffer and ends in the packet. -/
theorem getString_fits_iff (options : Nat → Byte) (code : Byte) {buflen : Nat}
    (positive : 0 < buflen) (buffer : Nat → Byte) :
    Fits options code buflen buffer (dhcpOptionGetStringFromPacket options code buflen) ↔
      ∀ i ∈ findFrom options code 0, (options (i + 1)).toNat < buflen ∧
        i + 2 + (options (i + 1)).toNat ≤ maxOptionsSize := by
  rw [dhcpOptionGetStringFromPacket, if_neg positive.ne', dhcpOptionFindInPacket]
  rcases found : findFrom options code 0 with _ | i
  · exact iff_of_true (fits_empty positive (by simp)) (by simp)
  simp only [Option.mem_def, Option.some.injEq, forall_eq']
  have room := findFrom_lt found
  generalize (options (i + 1)).toNat = length
  rcases Nat.eq_zero_or_pos length with rfl | some
  · exact iff_of_true (fits_empty positive (by simp)) ⟨positive, room⟩
  rw [if_pos (by omega)]
  by_cases short : length < buflen
  · rw [if_pos (Nat.le_sub_one_of_lt short)]
    constructor
    · intro fits
      obtain ⟨j, atJ, ends, -⟩ := fits.returned length rfl
      cases found.symm.trans atJ
      exact ⟨short, ends⟩
    · rintro ⟨-, ends⟩
      refine ⟨?_, ⟨length, short, written_terminator _ length⟩, ?_⟩
      · simpa using ⟨short.le, short⟩
      · rintro returned ⟨⟩
        exact ⟨i, found, ends, contents_written_data _ _⟩
  · refine iff_of_false (fun fits => ?_) fun allowed => short allowed.1
    exact short (fits.inside ⟨length, [0]⟩ (by simp))

/-- A packet with a host name of these many letters. -/
def hostnamePacket (length : Nat) (i : Nat) : Byte :=
  if i = 0 then optHostname else if i = 1 then BitVec.ofNat 8 length
  else if i < length + 2 then 97 else optEnd

theorem getString_fits_hostnamePacket : 0 < 64 ∧ Fits (hostnamePacket 8) optHostname 64 (fun _ => 1)
      ([⟨0, List.replicate 8 97⟩, ⟨8, [0]⟩], 8) := by
  have found : findFrom (hostnamePacket 8) optHostname 0 = some 0 := by
    rw [findFrom]
    decide
  have fits := (getString_fits_iff (hostnamePacket 8) optHostname (show 0 < 64 by decide)
    fun _ => 1).mpr (by rw [found]; decide)
  rw [dhcpOptionGetStringFromPacket, dhcpOptionFindInPacket, found] at fits
  exact ⟨by decide, fits⟩

/-- The handler of DISCOVER has 64 bytes for the host name.  A name of 64 letters is not
copied, and the zero byte is written behind the buffer. -/
theorem hostname_overflow :
    dhcpOptionGetStringFromPacket (hostnamePacket 64) optHostname 64 = ([⟨64, [0]⟩], 64) ∧
      ¬ Fits (hostnamePacket 64) optHostname 64 (fun _ => 1) ([⟨64, [0]⟩], 64) := by
  have found : findFrom (hostnamePacket 64) optHostname 0 = some 0 := by
    rw [findFrom]
    decide
  constructor
  · rw [dhcpOptionGetStringFromPacket, dhcpOptionFindInPacket, found]
    decide
  · intro fits
    exact absurd (fits.inside ⟨64, [0]⟩ (by simp)) (by decide)

end QDaemon.Dhcp
