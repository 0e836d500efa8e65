import Mathlib.Probability.Distributions.Uniform
import Fortuna.Proofs.Generator.Lengths

/-!
# Interfaces to the same output

Every interface to output makes one request, for as many bytes as it needs, and differs
from the others in what it makes of the bytes and of an error.

Three interfaces fill a buffer, and report an error in three forms (`fills_mapError`).

Three make a number.  Four bytes are the low half of eight, with the least significant
byte first, for the shorter output is the beginning of the longer one, however many
blocks either takes (`nextUInt32_eq_nextUInt64_mod`).  Eight bytes that are read the
other way make the number with its bytes reversed (`int63_eq_byteReversed_mod`).  Without
their top bit they leave each number below `2 ^ 63` with two byte strings, so that none
is more likely than another (`map_int63OfBytes_uniform`).
-/

namespace Fortuna

/-! ## Numbers in both byte orders -/

namespace Bytes

theorem toNatLE_take (bs : Bytes) (k : Nat) : toNatLE (bs.take k) = toNatLE bs % 256 ^ k := by
  induction k generalizing bs with
  | zero => rw [List.take_zero, toNatLE, Nat.pow_zero, Nat.mod_one]
  | succ k ih =>
      cases bs with
      | nil => simp [toNatLE]
      | cons b bs =>
          have hb : b.toNat < 256 := b.toNat_lt
          have hlow : (b.toNat + 256 * toNatLE bs) % 256 = b.toNat := by omega
          have hhigh : (b.toNat + 256 * toNatLE bs) / 256 = toNatLE bs := by omega
          rw [List.take_succ_cons, toNatLE, toNatLE, ih, Nat.pow_succ', Nat.mod_mul, hlow, hhigh]

theorem toNatBE_ofNatBE (width n : Nat) : toNatBE (ofNatBE width n) = n % 256 ^ width := by
  rw [toNatBE, ofNatBE, List.reverse_reverse, toNatLE_ofNatLE]

theorem ofNatBE_toNatBE (bs : Bytes) : ofNatBE bs.length (toNatBE bs) = bs := by
  have hback := ofNatLE_toNatLE bs.reverse
  rw [List.length_reverse] at hback
  rw [ofNatBE, toNatBE, hback, List.reverse_reverse]

theorem toNatBE_lt (bs : Bytes) : toNatBE bs < 256 ^ bs.length := by
  have hlt := toNatLE_lt bs.reverse
  rwa [List.length_reverse] at hlt

theorem ofNatBE_injOn (length : Nat) :
    Set.InjOn (ofNatBE length) (Finset.range (256 ^ length)) := by
  intro n hn m hm hsame
  rw [Finset.mem_coe, Finset.mem_range] at hn hm
  have hread := congrArg toNatBE hsame
  rwa [toNatBE_ofNatBE, toNatBE_ofNatBE, Nat.mod_eq_of_lt hn, Nat.mod_eq_of_lt hm] at hread

/-- The byte strings of one length. -/
def ofLength (length : Nat) : Finset Bytes :=
  (Finset.range (256 ^ length)).image (ofNatBE length)

@[simp] theorem mem_ofLength {bs : Bytes} {length : Nat} :
    bs ∈ ofLength length ↔ bs.length = length := by
  rw [ofLength, Finset.mem_image]
  constructor
  · rintro ⟨n, -, rfl⟩
    exact length_ofNatBE length n
  · rintro rfl
    exact ⟨toNatBE bs, Finset.mem_range.mpr (toNatBE_lt bs), ofNatBE_toNatBE bs⟩

theorem card_ofLength (length : Nat) : (ofLength length).card = 256 ^ length := by
  rw [ofLength, Finset.card_image_of_injOn (ofNatBE_injOn length), Finset.card_range]

theorem ofLength_nonempty (length : Nat) : (ofLength length).Nonempty :=
  ⟨List.replicate length 0, mem_ofLength.mpr List.length_replicate⟩

end Bytes

/-- The number with the same eight bytes in the other order. -/
def byteReversed (w : UInt64) : UInt64 :=
  UInt64.ofNat (Bytes.toNatBE (Bytes.ofNatLE 8 w.toNat))

theorem toNat_ofNat_toNatLE {bs : Bytes} (hlength : bs.length = 8) :
    (UInt64.ofNat (Bytes.toNatLE bs)).toNat = Bytes.toNatLE bs := by
  have hlt := Bytes.toNatLE_lt bs
  rw [hlength] at hlt
  exact UInt64.toNat_ofNat_of_lt' hlt

theorem toNat_byteReversed {bs : Bytes} (hlength : bs.length = 8) :
    (byteReversed (UInt64.ofNat (Bytes.toNatLE bs))).toNat = Bytes.toNatBE bs := by
  have hback := Bytes.ofNatLE_toNatLE bs
  have hlt := Bytes.toNatBE_lt bs
  rw [hlength] at hback hlt
  rw [byteReversed, toNat_ofNat_toNatLE hlength, hback]
  exact UInt64.toNat_ofNat_of_lt' hlt

/-! ## Numbers below `2 ^ 63` -/

/-- The number that eight bytes make, most significant byte first, without its top bit. -/
def int63OfBytes (drawn : Bytes) : Nat :=
  Bytes.toNatBE drawn % 2 ^ 63

theorem int63OfBytes_lt (drawn : Bytes) : int63OfBytes drawn < 2 ^ 63 :=
  Nat.mod_lt _ (by decide)

/-- Eight bytes make a number with either top bit in front of it. -/
theorem int63OfBytes_eq_iff {drawn : Bytes} (hlength : drawn.length = 8) {n : Nat}
    (hn : n < 2 ^ 63) :
    int63OfBytes drawn = n ↔
      drawn = Bytes.ofNatBE 8 n ∨ drawn = Bytes.ofNatBE 8 (n + 2 ^ 63) := by
  constructor
  · rintro rfl
    have hback := Bytes.ofNatBE_toNatBE drawn
    have hlt := Bytes.toNatBE_lt drawn
    rw [hlength] at hback hlt
    have htop : Bytes.toNatBE drawn = int63OfBytes drawn ∨
        Bytes.toNatBE drawn = int63OfBytes drawn + 2 ^ 63 := by
      rw [int63OfBytes]
      omega
    rcases htop with htop | htop
    · left
      rw [← htop, hback]
    · right
      rw [← htop, hback]
  · rintro (rfl | rfl) <;> rw [int63OfBytes, Bytes.toNatBE_ofNatBE] <;> omega

theorem card_int63OfBytes_eq {n : Nat} (hn : n < 2 ^ 63) :
    ((Bytes.ofLength 8).filter fun drawn => int63OfBytes drawn = n).card = 2 := by
  have hpair : ((Bytes.ofLength 8).filter fun drawn => int63OfBytes drawn = n) =
      {Bytes.ofNatBE 8 n, Bytes.ofNatBE 8 (n + 2 ^ 63)} := by
    ext drawn
    rw [Finset.mem_filter, Bytes.mem_ofLength, Finset.mem_insert, Finset.mem_singleton]
    constructor
    · rintro ⟨hlength, hvalue⟩
      exact (int63OfBytes_eq_iff hlength hn).mp hvalue
    · intro hdrawn
      have hlength : drawn.length = 8 := by
        rcases hdrawn with rfl | rfl <;> exact Bytes.length_ofNatBE _ _
      exact ⟨hlength, (int63OfBytes_eq_iff hlength hn).mpr hdrawn⟩
  have hne : Bytes.ofNatBE 8 n ≠ Bytes.ofNatBE 8 (n + 2 ^ 63) := by
    intro hsame
    have hread := congrArg Bytes.toNatBE hsame
    rw [Bytes.toNatBE_ofNatBE, Bytes.toNatBE_ofNatBE] at hread
    omega
  rw [hpair, Finset.card_pair hne]

/-- Eight uniform bytes make a uniform number. -/
theorem map_int63OfBytes_uniform :
    (PMF.uniformOfFinset (Bytes.ofLength 8) (Bytes.ofLength_nonempty 8)).map int63OfBytes =
      PMF.uniformOfFinset (Finset.range (2 ^ 63)) (Finset.nonempty_range_iff.mpr (by decide)) := by
  classical
  ext n
  rw [← PMF.toOuterMeasure_apply_singleton, PMF.toOuterMeasure_map_apply,
    PMF.toOuterMeasure_uniformOfFinset_apply, PMF.uniformOfFinset_apply, Bytes.card_ofLength,
    Finset.card_range]
  simp only [Set.mem_preimage, Set.mem_singleton_iff, Finset.mem_range]
  by_cases hn : n < 2 ^ 63
  · have hsize : 256 ^ 8 = 2 * 2 ^ 63 := by decide
    have hshare := ENNReal.mul_div_mul_left 1 ((2 ^ 63 : Nat) : ENNReal) two_ne_zero
      ENNReal.ofNat_ne_top
    rw [mul_one, one_div] at hshare
    rw [if_pos hn, card_int63OfBytes_eq hn, hsize, Nat.cast_mul, Nat.cast_ofNat, hshare]
  · have hnone : ((Bytes.ofLength 8).filter fun drawn => int63OfBytes drawn = n) = ∅ := by
      rw [Finset.filter_eq_empty_iff]
      rintro drawn - rfl
      exact hn (int63OfBytes_lt drawn)
    rw [if_neg hn, hnone, Finset.card_empty, Nat.cast_zero, ENNReal.zero_div]

/-! ## Buffers -/

/-- A buffer is filled with what a request for as many bytes returns.  An error of the
request is passed on in the form that `f` gives it, and the buffer keeps what it held. -/
structure Fills {F : CipherFactory} {ε : Type} (f : GeneratorError → ε) (buffer : Bytes)
    (request : Outcome F GeneratorError Bytes) (o : Outcome F ε Bytes) : Prop where
  state : o.state = request.state
  actions : o.actions = request.actions
  ok : ∀ out, request.result = .ok out →
    out.length = buffer.length ∧ o.result = .ok out ∧ o.buffer buffer = out
  error : ∀ e, request.result = .error e →
    o.result = .error (f e) ∧ o.buffer buffer = buffer

namespace Step

variable {F : CipherFactory} {ε ε' α β : Type}

theorem result_answer (x : Step F ε α) (f : α → β) (g : Generator F) :
    ((x >>= fun a => Pure.pure (f a)) g).result = (x g).result.map f := by
  rw [bind_apply]
  rcases x g with ⟨_ | a, h, as⟩ <;> rfl

theorem result_answer_eq_ok_iff (x : Step F ε α) (f : ε → ε') (h : α → β) (g : Generator F)
    (b : β) :
    ((x.mapError f >>= fun a => Pure.pure (h a)) g).result = .ok b ↔
      ∃ a, (x g).result = .ok a ∧ h a = b := by
  rw [result_answer, mapError_apply]
  rcases x g with ⟨_ | a, g', as⟩ <;> simp [Outcome.mapError, Except.map, Except.mapError]

end Step

namespace Generator

variable {F : CipherFactory}

theorem fills_mapError {ε : Type} (f : GeneratorError → ε) (buffer : Bytes) (g : Generator F) :
    Fills f buffer (read buffer.length g) ((fill buffer).mapError f g) where
  state := rfl
  actions := rfl
  ok := by
    intro out hout
    have hresult : ((fill buffer).mapError f g).result = .ok out := by
      rw [Step.mapError_apply, fill, Outcome.mapError, hout]
      rfl
    refine ⟨length_of_result_ok hout, hresult, ?_⟩
    rw [Outcome.buffer, hresult]
  error := by
    intro e herror
    have hresult : ((fill buffer).mapError f g).result = .error (f e) := by
      rw [Step.mapError_apply, fill, Outcome.mapError, herror]
      rfl
    refine ⟨hresult, ?_⟩
    rw [Outcome.buffer, hresult]

theorem fills_fill (buffer : Bytes) (g : Generator F) :
    Fills id buffer (read buffer.length g) (fill buffer g) := by
  have hsame : (fill buffer).mapError id g = fill buffer g := by
    rw [Step.mapError_apply]
    rcases fill buffer g with ⟨_ | out, h, as⟩ <;> rfl
  exact hsame ▸ fills_mapError id buffer g

/-! ## Integers -/

theorem result_int63 (g : Generator F) :
    (int63 g).result = (read 8 g).result.map int63OfBytes :=
  Step.result_answer _ _ g

theorem result_nextUInt32_eq_ok_iff (g : Generator F) (w : UInt32) :
    (nextUInt32 g).result = .ok w ↔
      ∃ drawn, (read 4 g).result = .ok drawn ∧ UInt32.ofNat (Bytes.toNatLE drawn) = w :=
  Step.result_answer_eq_ok_iff _ _ _ g w

theorem result_nextUInt64_eq_ok_iff (g : Generator F) (w : UInt64) :
    (nextUInt64 g).result = .ok w ↔
      ∃ drawn, (read 8 g).result = .ok drawn ∧ UInt64.ofNat (Bytes.toNatLE drawn) = w :=
  Step.result_answer_eq_ok_iff _ _ _ g w

/-- In which order eight bytes are read makes no difference to the generator. -/
theorem int63_like_nextUInt64 :
    (int63 : Step F GeneratorError Nat).Like (nextUInt64 : Step F Abort UInt64) := by
  let request : Step F GeneratorError Bytes := read 8
  have hpromised : (nextUInt64 : Step F Abort UInt64).Like request :=
    ((Step.Like.refl request).mapError Abort.mk).answer _
  have hreported : (int63 : Step F GeneratorError Nat).Like request :=
    (Step.Like.refl request).answer _
  intro g
  obtain ⟨hstate, hactions, hok⟩ := hpromised g
  rw [hstate, hactions, hok]
  exact hreported g

/-- Four bytes are the low half of eight, even where eight take more blocks. -/
theorem nextUInt32_eq_nextUInt64_mod {g : Generator F} {half : UInt32} {whole : UInt64}
    (hhalf : (nextUInt32 g).result = .ok half) (hwhole : (nextUInt64 g).result = .ok whole) :
    half.toNat = whole.toNat % 2 ^ 32 := by
  obtain ⟨short, hshort, rfl⟩ := (result_nextUInt32_eq_ok_iff g half).mp hhalf
  obtain ⟨long, hlong, rfl⟩ := (result_nextUInt64_eq_ok_iff g whole).mp hwhole
  have htake : long.take 4 = short := take_read_of_le (by decide) hshort hlong
  have hsize : 256 ^ 4 = 2 ^ 32 := rfl
  rw [toNat_ofNat_toNatLE (length_of_result_ok hlong), ← htake, UInt32.toNat_ofNat',
    Bytes.toNatLE_take, hsize, Nat.mod_mod]

theorem int63_eq_byteReversed_mod {g : Generator F} {n : Nat} {whole : UInt64}
    (hn : (int63 g).result = .ok n) (hwhole : (nextUInt64 g).result = .ok whole) :
    n = (byteReversed whole).toNat % 2 ^ 63 := by
  obtain ⟨drawn, hdrawn, rfl⟩ := (result_nextUInt64_eq_ok_iff g whole).mp hwhole
  rw [result_int63, hdrawn] at hn
  rw [toNat_byteReversed (length_of_result_ok hdrawn)]
  exact (Except.ok.inj hn).symm

theorem int63_lt {g : Generator F} {n : Nat} (hn : (int63 g).result = .ok n) : n < 2 ^ 63 := by
  rw [result_int63] at hn
  cases hdrawn : (read 8 g).result with
  | error e =>
      rw [hdrawn] at hn
      cases hn
  | ok drawn =>
      rw [hdrawn] at hn
      exact Except.ok.inj hn ▸ int63OfBytes_lt drawn

/-- All interfaces to output draw the same bytes.

Whatever the interface, a buffer is filled with what a request for as many bytes returns,
and the generator is left as that request leaves it.  Where the request fails so does the
interface, with the same error, and the buffer keeps its bytes.

From one state, the 32-bit number is the low half of the 64-bit number, and the number
below `2 ^ 63` is what the 64-bit number has in its low bits once its bytes are reversed.
The latter two succeed together and leave the same state.  Exactly two strings of eight
bytes make each number below `2 ^ 63`, so the number is uniform where the bytes are. -/
theorem interfaces_draw_alike (g : Generator F) :
    (∀ buffer : Bytes,
      Fills id buffer (read buffer.length g) (fill buffer g) ∧
        Fills SourceError.mk buffer (read buffer.length g) (tryFill buffer g) ∧
        Fills Abort.mk buffer (read buffer.length g) (fillOrAbort buffer g)) ∧
      (∀ half whole, (nextUInt32 g).result = .ok half → (nextUInt64 g).result = .ok whole →
        half.toNat = whole.toNat % 2 ^ 32) ∧
      (∀ n whole, (int63 g).result = .ok n → (nextUInt64 g).result = .ok whole →
        n = (byteReversed whole).toNat % 2 ^ 63) ∧
      (∀ n, (int63 g).result = .ok n → n < 2 ^ 63) ∧
      (int63 g).state = (nextUInt64 g).state ∧
      ((∃ n, (int63 g).result = .ok n) ↔ ∃ whole, (nextUInt64 g).result = .ok whole) ∧
      (int63 g).result = (read 8 g).result.map int63OfBytes ∧
      (∀ n < 2 ^ 63,
        ((Bytes.ofLength 8).filter fun drawn => int63OfBytes drawn = n).card = 2) ∧
      (PMF.uniformOfFinset (Bytes.ofLength 8) (Bytes.ofLength_nonempty 8)).map int63OfBytes =
        PMF.uniformOfFinset (Finset.range (2 ^ 63))
          (Finset.nonempty_range_iff.mpr (by decide)) := by
  obtain ⟨hstate, -, hok⟩ := int63_like_nextUInt64 g
  refine ⟨?_, fun _ _ => nextUInt32_eq_nextUInt64_mod, fun _ _ => int63_eq_byteReversed_mod,
    fun _ => int63_lt, hstate, hok, result_int63 g, fun _ => card_int63OfBytes_eq,
    map_int63OfBytes_uniform⟩
  intro buffer
  exact ⟨fills_fill buffer g, fills_mapError SourceError.mk buffer g,
    fills_mapError Abort.mk buffer g⟩

/-- Four blocks of one byte against eight. -/
theorem interfaces_draw_alike_bytewise :
    ∃ half whole n, (nextUInt32 steppedGenerator).result = .ok half ∧
      (nextUInt64 steppedGenerator).result = .ok whole ∧
      (int63 steppedGenerator).result = .ok n ∧
      half.toNat = whole.toNat % 2 ^ 32 ∧ n = (byteReversed whole).toNat % 2 ^ 63 ∧
      n < 2 ^ 63 := by
  have hhalf : (nextUInt32 steppedGenerator).result = .ok 0x23222120 := by decide +kernel
  have hwhole : (nextUInt64 steppedGenerator).result = .ok 0x2726252423222120 := by
    decide +kernel
  have hn : (int63 steppedGenerator).result = .ok 0x2021222324252627 := by decide +kernel
  obtain ⟨-, hlow, hreversed, hbound, -⟩ := interfaces_draw_alike steppedGenerator
  exact ⟨_, _, _, hhalf, hwhole, hn, hlow _ _ hhalf hwhole, hreversed _ _ hn hwhole,
    hbound _ hn⟩

end Generator

end Fortuna
