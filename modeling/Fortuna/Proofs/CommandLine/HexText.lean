import Fortuna.CommandLine.Run
import Fortuna.Proofs.Chunks

/-!
# Hexadecimal output

Two digits stand for a byte, so lines of `2 * k` digits are the digits of `k` bytes each
(`chunksOf_hex`): an even width never parts the digits of a byte.  All lines of a text
are full but the last, which is not empty (`length_of_mem_dropLast_chunksOf`,
`length_of_mem_chunksOf`).  The validity of a configuration is what makes the width even.
-/

namespace Fortuna

namespace Bytes

/-! ## Digits -/

def hexDigits : List Char :=
  "0123456789abcdef".toList

theorem digitChar_mem_hexDigits : ∀ n < 16, Nat.digitChar n ∈ hexDigits := by
  decide

theorem mem_hexDigits_of_mem_hex {data : Bytes} {digit : Char} (hdigit : digit ∈ hex data) :
    digit ∈ hexDigits := by
  rw [hex, List.mem_flatMap] at hdigit
  obtain ⟨b, -, hpair⟩ := hdigit
  have hb : b.toNat < 256 := b.toNat_lt
  rw [hexPair, List.mem_cons, List.mem_singleton] at hpair
  rcases hpair with rfl | rfl
  · exact digitChar_mem_hexDigits _ (by omega)
  · exact digitChar_mem_hexDigits _ (by omega)

theorem newline_notMem_hex (data : Bytes) : '\n' ∉ hex data := fun hnewline =>
  absurd (mem_hexDigits_of_mem_hex hnewline) (by decide)

theorem hex_append (xs ys : Bytes) : hex (xs ++ ys) = hex xs ++ hex ys :=
  List.flatMap_append

theorem length_hex (data : Bytes) : (hex data).length = 2 * data.length := by
  induction data with
  | nil => rfl
  | cons b data ih =>
      change (hexPair b ++ hex data).length = _
      rw [List.length_append, ih, List.length_cons, hexPair, List.length_cons,
        List.length_singleton]
      omega

/-- Lines of `2 * k` digits are the digits of `k` bytes each. -/
theorem chunksOf_hex {k : Nat} (hpos : 0 < k) (data : Bytes) :
    chunksOf (2 * k) (hex data) = (chunksOf k data).map hex := by
  have hpos' : 0 < 2 * k := by omega
  induction data using chunk_induction hpos with
  | nil => rw [chunksOf_nil, hex, List.flatMap_nil, chunksOf_nil, List.map_nil]
  | short data hne hlt =>
      have hlength : 0 < data.length := List.length_pos_iff.mpr hne
      have hdigits := length_hex data
      rw [chunksOf_of_lt hne hlt, chunksOf_of_lt _ (by omega), List.map_singleton]
      exact List.length_pos_iff.mp (by omega)
  | chunk block data hblock ih =>
      have hdigits := length_hex block
      rw [hex_append, chunksOf_append hpos hblock, chunksOf_append hpos' (by omega), ih,
        List.map_cons]

end Bytes

theorem Config.even_lineWidth_of_validate {c : Config} (hvalid : c.validate = .ok c) :
    c.lineWidth % 2 = 0 := by
  unfold Config.validate at hvalid
  split at hvalid
  · cases hvalid
  · split at hvalid
    · cases hvalid
    · split at hvalid
      · cases hvalid
      · omega

namespace CommandLine

/-! ## Text -/

/-- Bytes as characters of one byte each. -/
def characters (data : Bytes) : List Char :=
  data.map fun b => Char.ofNat b.toNat

theorem characters_ascii {text : List Char} (htext : ∀ ch ∈ text, ch.toNat < 256) :
    characters (ascii text) = text := by
  rw [characters, ascii, List.map_map]
  refine (List.map_congr_left fun ch hch => ?_).trans (List.map_id text)
  have hbyte : (UInt8.ofNat ch.toNat).toNat = ch.toNat :=
    UInt8.toNat_ofNat_of_lt' (htext ch hch)
  rw [Function.comp_apply, hbyte, Char.ofNat_toNat]
  rfl

/-- The bytes that stand on each line. -/
def hexParts (width : Nat) (data : Bytes) : List Bytes :=
  if width = 0 then [data] else chunksOf (width / 2) data

theorem flatten_hexParts (width : Nat) (data : Bytes) : (hexParts width data).flatten = data := by
  rw [hexParts]
  split
  · exact List.flatten_singleton
  · exact flatten_chunksOf _ data

theorem map_hex_hexParts {width : Nat} (hpos : 0 < width) (heven : width % 2 = 0) (data : Bytes) :
    (hexParts width data).map Bytes.hex = chunksOf width data.hex := by
  have hhalf : 2 * (width / 2) = width := by omega
  rw [hexParts, if_neg (Nat.ne_of_gt hpos), ← Bytes.chunksOf_hex (by omega), hhalf]

/-- A line holds the digits of whole bytes. -/
theorem hexLines_eq_flatMap {width : Nat} (heven : width % 2 = 0) (data : Bytes) :
    hexLines width data = (hexParts width data).flatMap fun part => part.hex ++ ['\n'] := by
  rcases Nat.eq_zero_or_pos width with rfl | hpos
  · exact (List.flatMap_singleton _ data).symm
  · rw [hexLines, if_neg (Nat.ne_of_gt hpos), ← map_hex_hexParts hpos heven, List.flatMap_map]

theorem filter_flatMap_hex (parts : List Bytes) :
    (parts.flatMap fun part => part.hex ++ ['\n']).filter (· ≠ '\n') =
      Bytes.hex parts.flatten := by
  induction parts with
  | nil => rfl
  | cons part parts ih =>
      have hkept : part.hex.filter (· ≠ '\n') = part.hex := by
        rw [List.filter_eq_self]
        intro digit hdigit
        refine decide_eq_true fun hnewline => ?_
        exact Bytes.newline_notMem_hex part (hnewline ▸ hdigit)
      rw [List.flatMap_cons, List.filter_append, ih, List.filter_append, hkept,
        List.flatten_cons, Bytes.hex_append]
      exact congrArg (· ++ _) (List.append_nil _)

theorem mem_hexDigits_or_eq_of_mem_hexLines {width : Nat} {data : Bytes} {ch : Char}
    (hch : ch ∈ hexLines width data) : ch ∈ Bytes.hexDigits ∨ ch = '\n' := by
  have hline {line : List Char} (hdigits : ∀ digit ∈ line, digit ∈ data.hex)
      (hmem : ch ∈ line ++ ['\n']) : ch ∈ Bytes.hexDigits ∨ ch = '\n' :=
    (List.mem_append.mp hmem).imp (fun h => Bytes.mem_hexDigits_of_mem_hex (hdigits ch h))
      List.mem_singleton.mp
  rw [hexLines] at hch
  split at hch
  · exact hline (fun _ h => h) hch
  · obtain ⟨line, hmem, hch⟩ := List.mem_flatMap.mp hch
    refine hline (fun digit hdigit => ?_) hch
    rw [← flatten_chunksOf width data.hex]
    exact List.mem_flatten_of_mem hmem hdigit

theorem toNat_lt_of_mem_hexDigits {ch : Char} (hch : ch ∈ Bytes.hexDigits) : ch.toNat < 256 := by
  have hall : Bytes.hexDigits.all (·.toNat < 256) = true := by
    decide
  exact of_decide_eq_true (List.all_eq_true.mp hall ch hch)

theorem characters_encode_hex (c : Config) (data : Bytes) :
    characters (encode c .hex data) = hexLines c.lineWidth data := by
  refine characters_ascii fun ch hch => ?_
  rcases mem_hexDigits_or_eq_of_mem_hexLines hch with hdigit | rfl
  · exact toNat_lt_of_mem_hexDigits hdigit
  · decide

/-- In a valid configuration the hexadecimal output of bytes consists of lower-case digits
and newlines, and without the newlines the digits decode to the bytes.  It is cut into
lines that each end with a newline and each hold the digits of whole bytes.  With width 0
there is one line.  Otherwise the number of lines is that of the digits by the width,
rounded up; all lines but the last are full, and the last holds two digits at least. -/
theorem hex_output_decodes {c : Config} (hvalid : c.validate = .ok c) (data : Bytes) :
    let text := characters (encode c .hex data)
    let width := c.lineWidth
    (∀ ch ∈ text, ch ∈ Bytes.hexDigits ∨ ch = '\n') ∧
      Bytes.ofHex? (text.filter (· ≠ '\n')) = some data ∧
      ∃ lines : List (List Char),
        text = lines.flatMap (· ++ ['\n']) ∧
        (∀ line ∈ lines, '\n' ∉ line ∧ line.length % 2 = 0) ∧
        (∃ parts : List Bytes, lines.map Bytes.ofHex? = parts.map some ∧ parts.flatten = data) ∧
        (width = 0 → lines.length = 1) ∧
        (0 < width →
          lines.length = (2 * data.length + width - 1) / width ∧
            (∀ line ∈ lines.dropLast, line.length = width) ∧
            ∀ line ∈ lines, 2 ≤ line.length ∧ line.length ≤ width) := by
  intro text width
  have heven : width % 2 = 0 := Config.even_lineWidth_of_validate hvalid
  have htext : text = hexLines width data := characters_encode_hex c data
  have hdecode (part : Bytes) : Bytes.ofHex? part.hex = some part := Bytes.ofHex?_hex part
  refine ⟨?_, ?_, (hexParts width data).map Bytes.hex, ?_, ?_, ⟨hexParts width data, ?_,
    flatten_hexParts width data⟩, ?_, fun hpos => ?_⟩
  · intro ch hch
    exact mem_hexDigits_or_eq_of_mem_hexLines (htext ▸ hch)
  · rw [htext, hexLines_eq_flatMap heven, filter_flatMap_hex, flatten_hexParts, hdecode]
  · rw [htext, hexLines_eq_flatMap heven, List.flatMap_map]
  · rw [List.forall_mem_map]
    intro part _
    rw [Bytes.length_hex, Nat.mul_mod_right]
    exact ⟨Bytes.newline_notMem_hex part, rfl⟩
  · rw [List.map_map]
    exact List.map_congr_left fun part _ => hdecode part
  · intro hzero
    rw [List.length_map, hexParts, if_pos hzero, List.length_singleton]
  · rw [map_hex_hexParts hpos heven]
    refine ⟨?_, fun line hline => length_of_mem_dropLast_chunksOf hpos hline, ?_⟩
    · rw [length_chunksOf hpos, Bytes.length_hex]
    · intro line hline
      obtain ⟨hnonempty, hle⟩ := length_of_mem_chunksOf hpos hline
      rw [← map_hex_hexParts hpos heven] at hline
      obtain ⟨part, -, rfl⟩ := List.mem_map.mp hline
      rw [Bytes.length_hex] at hnonempty hle ⊢
      omega

/-- Five bytes on lines of four digits. -/
theorem hex_output_decodes_on_three_lines :
    let text := characters (encode { lineWidth := 4 } .hex [0, 10, 171, 255, 16])
    text = "000a\nabff\n10\n".toList ∧
      Bytes.ofHex? (text.filter (· ≠ '\n')) = some [0, 10, 171, 255, 16] := by
  intro text
  have hvalid : Config.validate { lineWidth := 4 } = .ok { lineWidth := 4 } := rfl
  obtain ⟨-, hdecodes, -⟩ := hex_output_decodes hvalid [0, 10, 171, 255, 16]
  exact ⟨by decide +kernel, hdecodes⟩

end CommandLine

end Fortuna
