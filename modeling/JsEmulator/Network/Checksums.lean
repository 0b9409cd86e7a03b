import JsEmulator.Library.OnesComplement
import Mathlib.Data.BitVec

/-!
# The Internet checksum

`net_checksum` and `net_udp_checksum` of the guest's network stack add big-endian words
and fold the carry back after each of them. `net_checksum_eq` says what they compute: the
complement of the one's-complement sum. The network bridge on the host has the same loop.
-/

namespace JsEmulator.Network

open JsEmulator.Library

abbrev Byte := BitVec 8

/-- A frame buffer. What it holds beyond a frame is left over from earlier frames. -/
abbrev Buffer := Nat → Byte

/-- `net_read16(frame + start)`. -/
def netRead16 (frame : Buffer) (start : Nat) : Nat :=
  (frame start).toNat * 256 + (frame (start + 1)).toNat

/-- `net_read32(frame + start)`. -/
def netRead32 (frame : Buffer) (start : Nat) : Nat :=
  netRead16 frame start * 65536 + netRead16 frame (start + 2)

def store (frame : Buffer) (place : Nat) (b : Byte) : Buffer := Function.update frame place b

/-- `net_write16(frame + start, value)`. -/
def netWrite16 (frame : Buffer) (start value : Nat) : Buffer :=
  store (store frame start (BitVec.ofNat 8 (value / 256))) (start + 1) (BitVec.ofNat 8 value)

/-- `net_write32(frame + start, value)`. -/
def netWrite32 (frame : Buffer) (start value : Nat) : Buffer :=
  netWrite16 (netWrite16 frame start (value / 65536)) (start + 2) value

/-- `while ((sum >> 16) != 0) sum = (sum & 65535) + (sum >> 16);` -/
def foldCarry (sum : Nat) : Nat :=
  if sum / 65536 ≠ 0 then foldCarry (sum % 65536 + sum / 65536) else sum
termination_by sum

/-- The word at an even place; an odd tail is padded with zero. -/
def checksumWord (frame : Buffer) (start length i : Nat) : Nat :=
  (frame (start + i)).toNat * 256 +
    (if i + 1 < length then (frame (start + i + 1)).toNat else 0)

/-- The loop that the two checksums share. -/
def checksumLoop (frame : Buffer) (start length sum : Nat) : Nat :=
  (List.range ((length + 1) / 2)).foldl
    (fun sum k => foldCarry (sum + checksumWord frame start length (2 * k))) sum

/-- `net_checksum(frame + start, length)`. -/
def netChecksum (frame : Buffer) (start length : Nat) : Nat :=
  65535 - checksumLoop frame start length 0

/-- `CFG_IPPROTO_UDP`. -/
def ipprotoUdp : Nat := 17

/-- `net_udp_checksum`, which adds the pseudo-header first. -/
def netUdpChecksum (frame : Buffer) (udp udpLength : Nat) : Nat :=
  65535 - foldCarry (checksumLoop frame udp udpLength
    (netRead16 frame 26 + netRead16 frame 28 + netRead16 frame 30 + netRead16 frame 32 +
      ipprotoUdp + udpLength))

/-- The big-endian words of a stretch of the buffer. -/
def bigEndianWords (frame : Buffer) (start length : Nat) : List Nat :=
  (List.range ((length + 1) / 2)).map (fun k => checksumWord frame start length (2 * k))

theorem fold_carry_eq (sum : Nat) : foldCarry sum = carried 65535 sum := by
  fun_induction foldCarry sum with
  | case1 sum more ih =>
    rw [ih]
    exact carried_digits (m := 65535) (by decide) sum
  | case2 sum done =>
    exact (carried_of_le (by omega)).symm

section

variable (frame : Buffer)
include frame

theorem checksum_word_le (start length i : Nat) : checksumWord frame start length i ≤ 65535 := by
  unfold checksumWord
  have high := (frame (start + i)).isLt
  have low := (frame (start + i + 1)).isLt
  split <;> omega

theorem checksum_loop_eq (start length sum : Nat) (small : sum ≤ 65535) :
    checksumLoop frame start length sum =
      carried 65535 (sum + (bigEndianWords frame start length).sum) := by
  unfold checksumLoop bigEndianWords
  generalize List.range ((length + 1) / 2) = places
  induction places generalizing sum with
  | nil => simp [carried_of_le small]
  | cons k rest ih =>
    rw [List.foldl_cons, fold_carry_eq, ih _ (carried_le (by decide)),
      carried_add (by decide), List.map_cons, List.sum_cons, Nat.add_assoc]

/-- The checksum is the complement of the carried sum of the words. -/
theorem net_checksum_eq (start length : Nat) :
    netChecksum frame start length =
      65535 - carried 65535 (bigEndianWords frame start length).sum := by
  unfold netChecksum
  rw [checksum_loop_eq frame start length 0 (by decide), Nat.zero_add]

theorem net_checksum_zero_iff (start length : Nat) :
    netChecksum frame start length = 0 ↔
      onesSum 65535 (bigEndianWords frame start length) = 65535 := by
  have bounded : ∀ w ∈ bigEndianWords frame start length, w ≤ 65535 := by
    intro w member
    obtain ⟨k, -, rfl⟩ := List.mem_map.mp member
    exact checksum_word_le frame start length (2 * k)
  rw [net_checksum_eq, ones_sum_carried (by decide) _ bounded]
  have top := carried_le (m := 65535) (n := (bigEndianWords frame start length).sum) (by decide)
  omega

theorem net_write16_other (start value i : Nat) (first : i ≠ start)
    (second : i ≠ start + 1) : netWrite16 frame start value i = frame i := by
  simp [netWrite16, store, first, second]

theorem net_read16_write (start value : Nat) (small : value < 65536) :
    netRead16 (netWrite16 frame start value) start = value := by
  have high : value / 256 % 256 = value / 256 := Nat.mod_eq_of_lt (by omega)
  simp only [netRead16, netWrite16, store, Function.update_self, ne_eq, Nat.left_eq_add,
    one_ne_zero, not_false_eq_true, Function.update_of_ne, BitVec.toNat_ofNat]
  omega

/-- Only the word that holds the field changes when a 16-bit field is written. -/
theorem checksum_word_write (start length k j value : Nat)
    (inside : 2 * j + 2 ≤ length) (small : value < 65536) :
    checksumWord (netWrite16 frame (start + 2 * j) value) start length (2 * k) =
      if k = j then value else checksumWord frame start length (2 * k) := by
  by_cases same : k = j
  · subst same
    have both : 2 * k + 1 < length := by omega
    rw [if_pos rfl, checksumWord, if_pos both]
    exact net_read16_write frame (start + 2 * k) value small
  · rw [if_neg same, checksumWord, checksumWord, net_write16_other _ _ _ _ (by omega) (by omega),
      net_write16_other _ _ _ _ (by omega) (by omega)]

/-- Writing a field adds its value to the sum with the field zeroed. -/
theorem words_sum_write (start length j value : Nat)
    (inside : 2 * j + 2 ≤ length) (small : value < 65536) :
    (bigEndianWords (netWrite16 frame (start + 2 * j) value) start length).sum =
      (bigEndianWords (netWrite16 frame (start + 2 * j) 0) start length).sum + value := by
  have upTo (n : Nat) : ((List.range n).map (fun k =>
      checksumWord (netWrite16 frame (start + 2 * j) value) start length (2 * k))).sum =
      ((List.range n).map (fun k =>
        checksumWord (netWrite16 frame (start + 2 * j) 0) start length (2 * k))).sum +
        (if j < n then value else 0) := by
    induction n with
    | zero => rfl
    | succ n ih =>
      simp only [List.range_succ, List.map_append, List.sum_append, List.map_cons, List.map_nil,
        List.sum_cons, List.sum_nil]
      rw [ih, checksum_word_write _ _ _ n j value inside small,
        checksum_word_write _ _ _ n j 0 inside (by decide)]
      split_ifs <;> omega
  have counted : j < (length + 1) / 2 := by omega
  unfold bigEndianWords
  rw [upTo, if_pos counted]

end

/-- The law of the Internet checksum: a stored checksum makes the whole sum to zero, and a
checksum is zero when the one's-complement sum of the words is the maximal word. -/
theorem checksum_law (frame : Buffer) (start length offset : Nat) (even : 2 ∣ offset)
    (inside : offset + 2 ≤ length) :
    netChecksum (netWrite16 frame (start + offset)
      (netChecksum (netWrite16 frame (start + offset) 0) start length)) start length = 0 ∧
    (netChecksum frame start length = 0 ↔
      onesSum 65535 (bigEndianWords frame start length) = 65535) := by
  refine ⟨?_, net_checksum_zero_iff frame start length⟩
  obtain ⟨j, rfl⟩ := even
  generalize value : netChecksum (netWrite16 frame (start + 2 * j) 0) start length = checksum
  rw [net_checksum_eq] at value ⊢
  rw [words_sum_write frame start length j checksum inside (by omega), ← value,
    carried_complement (by decide)]

theorem checksum_law_odd_length :
    let frame : Buffer := fun i => BitVec.ofNat 8 (37 * i)
    netChecksum (netWrite16 frame (0 + 10) (netChecksum (netWrite16 frame (0 + 10) 0) 0 21)) 0 21 = 0 ∧
      (netChecksum frame 0 21 = 0 ↔ onesSum 65535 (bigEndianWords frame 0 21) = 65535) :=
  checksum_law (fun i => BitVec.ofNat 8 (37 * i)) 0 21 10 (by decide) (by decide)

end JsEmulator.Network
