import LuaZephyr.Library.LineEditing
import LuaZephyr.Fs.Files

/-!
# The line editors of the shell

`shell_getline` and `lua_fs_shell_readline` edit a line in the buffer of their caller, whose
tail they keep zero. `shell_getline` takes back a character also when the line is empty:
its index wraps around, so that it stores in front of the buffer and returns.

The keys are a list, and a reader that has not yet returned waits for the next one. The echo on
the terminal is left out. The buffer is longer than the part that is edited where the caller's
array is, and what is stored in front of it is noted as such.
-/

namespace LuaZephyr

open LineEditing

/-- Backspace and delete. -/
def erasesKey (c : UInt8) : Bool := c = 0x08 ∨ c = 0x7F

/-- Ctrl+D, newline and carriage return. -/
def endsKey (c : UInt8) : Bool := c = 0x04 ∨ c = 0x0A ∨ c = 0x0D

/-- A buffer of `len` bytes is full with a byte less. -/
def fullLine (len : Nat) (line : Bytes) : Bool := len - 1 ≤ line.length

/-- The buffer, the index `i`, and the indices written so far. A byte stored outside of the
buffer does not change it. -/
structure LineBuffer where
  cells : Bytes
  index : Nat
  written : List Nat
  deriving DecidableEq, Repr

namespace LineBuffer

/-- `memset(buf, 0, len)`. -/
def cleared (len : Nat) : LineBuffer := ⟨List.replicate len 0, 0, List.range len⟩

/-- `buf[i] = c`. -/
def store (buf : LineBuffer) (c : UInt8) : LineBuffer :=
  { buf with cells := buf.cells.set buf.index c, written := buf.written ++ [buf.index] }

/-- `i++`. -/
def advance (buf : LineBuffer) : LineBuffer := { buf with index := buf.index + 1 }

/-- `i--`, for a `size_t` up to `sizeMax`. -/
def retreat (sizeMax : Nat) (buf : LineBuffer) : LineBuffer :=
  { buf with index := if buf.index = 0 then sizeMax else buf.index - 1 }

/-- The line and then zero bytes. -/
def lineCells (len : Nat) (line : Bytes) : Bytes := line ++ List.replicate (len - line.length) 0

/-- The buffer holds the line, and nothing outside of it was written. -/
structure Holds (len : Nat) (buf : LineBuffer) (line : Bytes) : Prop where
  cells : buf.cells = lineCells len line
  index : buf.index = line.length
  fits : line.length < len
  written : ∀ i ∈ buf.written, i < len

variable {len : Nat} {buf : LineBuffer} {line : Bytes}

theorem holds_cleared (hlen : 1 ≤ len) : (cleared len).Holds len [] where
  cells := rfl
  index := rfl
  fits := hlen
  written _ hi := List.mem_range.mp hi

theorem Holds.append (h : buf.Holds len line) (hroom : line.length < len - 1) (c : UInt8) :
    (buf.store c).advance.Holds len (line ++ [c]) where
  cells := by
    have hzeros : len - line.length = (len - (line ++ [c]).length) + 1 := by
      rw [List.length_append, List.length_singleton]
      omega
    have hset : buf.cells.set buf.index c = lineCells len (line ++ [c]) := by
      rw [h.cells, h.index, lineCells, lineCells, hzeros, List.replicate_succ,
        List.set_append_right _ _ (Nat.le_refl _), Nat.sub_self, List.set_cons_zero,
        List.append_assoc, List.singleton_append]
    exact hset
  index := by
    have hindex : buf.index + 1 = (line ++ [c]).length := by
      rw [h.index, List.length_append, List.length_singleton]
    exact hindex
  fits := by
    rw [List.length_append, List.length_singleton]
    omega
  written := by
    have hindex := h.index
    have hfits := h.fits
    exact List.forall_mem_append.mpr ⟨h.written, by simp; omega⟩

theorem Holds.erase (h : buf.Holds len line) (hne : line ≠ []) (sizeMax : Nat) :
    ((buf.retreat sizeMax).store 0).Holds len line.dropLast := by
  obtain ⟨line, c, rfl⟩ := List.eq_nil_or_concat line |>.resolve_left hne
  rw [List.concat_eq_append] at h ⊢
  have hindex : buf.index = line.length + 1 := by
    rw [h.index, List.length_append, List.length_singleton]
  have hfits := h.fits
  rw [List.length_append, List.length_singleton] at hfits
  have hback : (buf.retreat sizeMax).index = line.length := by
    have hstep : (buf.retreat sizeMax).index = buf.index - 1 := if_neg (by omega)
    omega
  rw [List.dropLast_concat]
  refine ⟨?_, hback, by omega, ?_⟩
  · have hset : buf.cells.set (buf.retreat sizeMax).index 0 = lineCells len line := by
      have hzeros : len - line.length = (len - (line ++ [c]).length) + 1 := by
        rw [List.length_append, List.length_singleton]
        omega
      rw [h.cells, hback, lineCells, lineCells, hzeros, List.replicate_succ, List.append_assoc,
        List.set_append_right _ _ (Nat.le_refl _), Nat.sub_self, List.singleton_append,
        List.set_cons_zero]
    exact hset
  · exact List.forall_mem_append.mpr ⟨h.written, by simp [hback]; omega⟩

end LineBuffer

/-- A byte from the transport, and whether the transport takes its echo. -/
structure TransportKey where
  byte : UInt8
  echoed : Bool
  deriving DecidableEq, Repr

/-- The transport takes every echo. -/
def echoed (keys : List UInt8) : List TransportKey := keys.map (⟨·, true⟩)

/-- The loop of `shell_getline`. It waits for a key, or returns whether it set
`received_exit` and leaves the keys to come. Ctrl+L is a byte of the line too. -/
def shellGetlineLoop (sizeMax len : Nat) :
    List TransportKey → LineBuffer → LineBuffer × Option (Bool × List TransportKey)
  | [], buf => (buf, if buf.index < len - 1 then none else some (false, []))
  | key :: keys, buf =>
      if buf.index < len - 1 then
        if key.byte = 0x08 ∨ key.byte = 0x7F then
          shellGetlineLoop sizeMax len keys ((buf.retreat sizeMax).store 0)
        else if key.echoed ∧ key.byte = 0x04 then (buf, some (true, keys))
        else if key.byte = 0x0A ∨ key.byte = 0x0D then (buf, some (false, keys))
        else shellGetlineLoop sizeMax len keys (buf.store key.byte).advance
      else (buf, some (false, key :: keys))

/-- `shell_getline`. -/
def shellGetline (sizeMax len : Nat) (keys : List TransportKey) :
    LineBuffer × Option (Bool × List TransportKey) :=
  shellGetlineLoop sizeMax len keys (.cleared len)

section Keys

variable {c : UInt8}

theorem erasesKey_iff : erasesKey c = true ↔ c = 0x08 ∨ c = 0x7F := decide_eq_true_iff

theorem fullLine_iff {len : Nat} {line : Bytes} :
    fullLine len line = true ↔ ¬ line.length < len - 1 := by
  rw [fullLine, decide_eq_true_iff, Nat.not_lt]

/-- A key that erases does not stop the line, and Ctrl+D and the line ends do. -/
theorem stops_erase (h : c = 0x08 ∨ c = 0x7F) : stops erasesKey endsKey c = false := by
  rw [stops, erasesKey_iff.mpr h, Bool.not_true, Bool.and_false]

theorem stops_iff (h : ¬ (c = 0x08 ∨ c = 0x7F)) :
    stops erasesKey endsKey c = true ↔ c = 0x04 ∨ c = 0x0A ∨ c = 0x0D := by
  rw [stops, Bool.eq_false_iff.mpr (mt erasesKey_iff.mp h), Bool.not_false, Bool.and_true, endsKey,
    decide_eq_true_iff]

theorem edit_erase (h : c = 0x08 ∨ c = 0x7F) (line : Bytes) :
    edit erasesKey line c = line.dropLast := by
  rw [edit, if_pos (erasesKey_iff.mpr h)]

theorem edit_append (h : ¬ (c = 0x08 ∨ c = 0x7F)) (line : Bytes) :
    edit erasesKey line c = line ++ [c] := by
  rw [edit, if_neg (mt erasesKey_iff.mp h)]

variable {len : Nat} {keys : List UInt8} {line : Bytes}

/-- The reader takes a key in the order of the loops. -/
theorem readLine_key (hroom : line.length < len - 1) (c : UInt8) :
    readLine erasesKey endsKey (fullLine len) (c :: keys) line =
      if c = 0x08 ∨ c = 0x7F then
        readLine erasesKey endsKey (fullLine len) keys line.dropLast
      else if c = 0x04 ∨ c = 0x0A ∨ c = 0x0D then some ⟨line, some c, keys⟩
      else readLine erasesKey endsKey (fullLine len) keys (line ++ [c]) := by
  rw [readLine, if_neg (mt fullLine_iff.mp (not_not_intro hroom))]
  by_cases herase : c = 0x08 ∨ c = 0x7F
  · rw [if_pos herase, if_neg (by simp [stops_erase herase]), edit_erase herase]
  · rw [if_neg herase, edit_append herase]
    by_cases hends : c = 0x04 ∨ c = 0x0A ∨ c = 0x0D
    · rw [if_pos ((stops_iff herase).mpr hends), if_pos hends]
    · rw [if_neg (mt (stops_iff herase).mp hends), if_neg hends]

theorem readLine_waiting (hroom : line.length < len - 1) :
    readLine erasesKey endsKey (fullLine len) [] line = none := by
  rw [readLine, if_neg (mt fullLine_iff.mp (not_not_intro hroom))]

theorem readLine_atFull (hfull : ¬ line.length < len - 1) :
    readLine erasesKey endsKey (fullLine len) keys line = some ⟨line, none, keys⟩ :=
  readLine_full (fullLine_iff.mpr hfull)

end Keys

/-- Until the line stops, a key that erases finds something to erase. -/
def ErasesTyped (len : Nat) (line : Bytes) (keys : List UInt8) : Prop :=
  ∀ p key q, keys = p ++ key :: q → Waits erasesKey endsKey (fullLine len) line p →
    erasesKey key = true → edited erasesKey line p ≠ []

theorem ErasesTyped.of_cons {len : Nat} {line : Bytes} {key : UInt8} {keys : List UInt8}
    (h : ErasesTyped len line (key :: keys)) (hroom : fullLine len line = false)
    (hkey : stops erasesKey endsKey key = false) :
    ErasesTyped len (edit erasesKey line key) keys := by
  intro p erasing q hsplit hwaits herases
  exact h (key :: p) erasing q (congrArg (key :: ·) hsplit) (hwaits.cons hroom hkey) herases

/-- Where every key that erases finds something to erase, the loop is the reader of the
editing rule on the line its buffer holds. -/
theorem shellGetlineLoop_eq (sizeMax : Nat) {len : Nat} {keys : List UInt8} {line : Bytes}
    (htyped : ErasesTyped len line keys) {buf : LineBuffer} (hbuf : buf.Holds len line) :
    ∃ buf' line', buf'.Holds len line' ∧
      shellGetlineLoop sizeMax len (echoed keys) buf =
        (buf', (readLine erasesKey endsKey (fullLine len) keys line).map fun r =>
          (decide (r.stop = some 0x04), echoed r.rest)) ∧
      ∀ r, readLine erasesKey endsKey (fullLine len) keys line = some r → line' = r.line := by
  induction keys generalizing line buf with
  | nil =>
      refine ⟨buf, line, hbuf, ?_⟩
      rw [echoed, List.map_nil, shellGetlineLoop, hbuf.index]
      by_cases hroom : line.length < len - 1
      · rw [if_pos hroom, readLine_waiting hroom]
        exact ⟨rfl, by simp⟩
      · rw [if_neg hroom, readLine_atFull hroom]
        exact ⟨rfl, by simp⟩
  | cons c keys ih =>
      rw [echoed, List.map_cons, ← echoed, shellGetlineLoop, hbuf.index]
      by_cases hroom : line.length < len - 1
      · have hfull : fullLine len line = false :=
          Bool.eq_false_iff.mpr (mt fullLine_iff.mp (not_not_intro hroom))
        rw [if_pos hroom, readLine_key hroom]
        by_cases herase : c = 0x08 ∨ c = 0x7F
        · have hne := htyped [] c keys rfl
            ⟨by simp, fun p q hsplit => by
              rw [(List.append_eq_nil_iff.mp hsplit.symm).1]
              exact hfull⟩ (erasesKey_iff.mpr herase)
          have hrest := htyped.of_cons hfull (stops_erase herase)
          rw [edit_erase herase] at hrest
          rw [if_pos herase, if_pos herase]
          exact ih hrest (hbuf.erase hne sizeMax)
        · rw [if_neg herase, if_neg herase]
          by_cases hends : c = 0x04 ∨ c = 0x0A ∨ c = 0x0D
          · rw [if_pos hends]
            refine ⟨buf, line, hbuf, ?_, by simp⟩
            by_cases heot : c = 0x04
            · rw [if_pos ⟨rfl, heot⟩]
              simp [heot]
            · rw [if_neg fun h => heot h.2, if_pos (hends.resolve_left heot)]
              simp [heot]
          · have hrest := htyped.of_cons hfull
              (Bool.eq_false_iff.mpr (mt (stops_iff herase).mp hends))
            rw [edit_append herase] at hrest
            rw [if_neg hends, if_neg fun h => hends (.inl h.2), if_neg fun h => hends (.inr h)]
            exact ih hrest (hbuf.append hroom c)
      · rw [if_neg hroom, readLine_atFull hroom]
        exact ⟨buf, line, hbuf, rfl, by simp⟩

/-- Beyond the buffer the loop ends. -/
theorem shellGetlineLoop_beyond {sizeMax len : Nat} {buf : LineBuffer}
    (hindex : ¬ buf.index < len - 1) (keys : List TransportKey) :
    shellGetlineLoop sizeMax len keys buf = (buf, some (false, keys)) := by
  cases keys with
  | nil => rw [shellGetlineLoop, if_neg hindex]
  | cons key keys => rw [shellGetlineLoop, if_neg hindex]

/-- Erasing on an empty line moves the index beyond the buffer. -/
theorem shellGetlineLoop_wrapped {sizeMax len : Nat} (hsize : len ≤ sizeMax) {buf : LineBuffer}
    (hbuf : buf.Holds len []) (keys : List TransportKey) :
    (shellGetlineLoop sizeMax len keys ((buf.retreat sizeMax).store 0)).1.index = sizeMax := by
  have hindex : (buf.retreat sizeMax).index = sizeMax := by
    rw [LineBuffer.retreat, hbuf.index]
    rfl
  have hbeyond : ¬ ((buf.retreat sizeMax).store 0).index < len - 1 := by
    rw [LineBuffer.store, hindex]
    omega
  rw [shellGetlineLoop_beyond hbeyond]
  exact hindex

/-- A key that erases on an empty line leaves the index beyond the buffer. -/
theorem shellGetlineLoop_wraps {sizeMax len : Nat} (hsize : len ≤ sizeMax) {key : UInt8}
    (hkey : key = 0x08 ∨ key = 0x7F) {p : List UInt8} {line : Bytes}
    (hwaits : Waits erasesKey endsKey (fullLine len) line p)
    (hempty : edited erasesKey line p = []) {buf : LineBuffer} (hbuf : buf.Holds len line) :
    (shellGetlineLoop sizeMax len (echoed (p ++ [key])) buf).1.index = sizeMax := by
  induction p generalizing line buf with
  | nil =>
      have hroom := hwaits.room [] [] rfl
      have hline : line = [] := hempty
      rw [edited_nil, Bool.eq_false_iff, ne_eq, fullLine_iff, not_not] at hroom
      rw [List.nil_append, echoed, List.map_cons, shellGetlineLoop, hbuf.index, if_pos hroom,
        if_pos hkey]
      exact shellGetlineLoop_wrapped hsize (hline ▸ hbuf) _
  | cons c p ih =>
      have hroom := hwaits.room [] (c :: p) rfl
      rw [edited_nil, Bool.eq_false_iff, ne_eq, fullLine_iff, not_not] at hroom
      have hrest : Waits erasesKey endsKey (fullLine len) (edit erasesKey line c) p := by
        refine ⟨fun k hk => hwaits.ordinary k (List.mem_cons_of_mem _ hk), fun a b hsplit => ?_⟩
        exact hwaits.room (c :: a) b (congrArg (c :: ·) hsplit)
      rw [edited_cons] at hempty
      rw [List.cons_append, echoed, List.map_cons, ← echoed, shellGetlineLoop, hbuf.index,
        if_pos hroom]
      by_cases herase : c = 0x08 ∨ c = 0x7F
      · rw [if_pos herase]
        rw [edit_erase herase] at hrest hempty
        by_cases hline : line = []
        · exact shellGetlineLoop_wrapped hsize (hline ▸ hbuf) _
        · exact ih hrest hempty (hbuf.erase hline sizeMax)
      · have hends := hwaits.ordinary c List.mem_cons_self
        rw [Bool.eq_false_iff, ne_eq, stops_iff herase] at hends
        rw [edit_append herase] at hrest hempty
        rw [if_neg herase, if_neg fun h => hends (.inl h.2), if_neg fun h => hends (.inr h)]
        exact ih hrest hempty (hbuf.append hroom c)

/-- At every point of the typing, `shell_getline` has written only its buffer and its index is
within it, and once it returns, the buffer holds the edited line up to the stop and then zero
bytes, and `received_exit` is set after Ctrl+D. -/
def GetlineEdits (sizeMax len : Nat) (keys : List UInt8) : Prop :=
  ∀ p q, keys = p ++ q →
    (∀ i ∈ (shellGetline sizeMax len (echoed p)).1.written, i < len) ∧
    (shellGetline sizeMax len (echoed p)).1.index < len ∧
    match (shellGetline sizeMax len (echoed p)).2 with
    | none => Waits erasesKey endsKey (fullLine len) [] p
    | some (receivedExit, rest) => ∃ typed r,
        Stops erasesKey endsKey (fullLine len) [] p typed r ∧
        (shellGetline sizeMax len (echoed p)).1.cells = LineBuffer.lineCells len r.line ∧
        (receivedExit = true ↔ r.stop = some 0x04) ∧ rest = echoed r.rest

/-- The editor works exactly when no backspace or delete comes on an empty line. -/
theorem getlineEdits_iff {sizeMax len : Nat} (hlen : 1 ≤ len) (hsize : len ≤ sizeMax)
    (keys : List UInt8) : GetlineEdits sizeMax len keys ↔ ErasesTyped len [] keys := by
  constructor
  · intro hedits p key q hsplit hwaits hkey hempty
    have hindex := shellGetlineLoop_wraps hsize (erasesKey_iff.mp hkey) hwaits hempty
      (LineBuffer.holds_cleared hlen)
    obtain ⟨-, hwithin, -⟩ := hedits (p ++ [key]) q (by rw [hsplit, List.append_cons])
    rw [shellGetline, hindex] at hwithin
    omega
  · intro htyped p q hsplit
    have hprefix : ErasesTyped len [] p := by
      intro a key b hp
      exact htyped a key (b ++ q) (by rw [hsplit, hp, List.append_assoc, List.cons_append])
    obtain ⟨buf, line, hholds, hloop, hline⟩ :=
      shellGetlineLoop_eq sizeMax hprefix (LineBuffer.holds_cleared hlen)
    rw [shellGetline, hloop]
    refine ⟨hholds.written, hholds.index ▸ hholds.fits, ?_⟩
    obtain ⟨r, typed, hread, hstops⟩ | ⟨hread, hwaits⟩ :=
      readLine_spec erasesKey endsKey (fullLine len) p []
    · rw [hread]
      refine ⟨typed, r, hstops, ?_, by simp, rfl⟩
      rw [hholds.cells, hline r hread]
    · rw [hread]
      exact hwaits

theorem getlineEdits_delete : GetlineEdits 0xFFFFFFFF 256 (ascii "x\x7Fy\r") := by
  refine (getlineEdits_iff (by decide) (by decide) _).mpr ?_
  intro p key q hsplit hwaits hkey
  have hkeys : p ++ key :: q = [0x78, 0x7F, 0x79, 0x0D] := hsplit.symm
  obtain _ | ⟨a, _ | ⟨b, _ | ⟨c, _ | ⟨d, p⟩⟩⟩⟩ := p
  · obtain ⟨rfl, -⟩ := List.cons.inj hkeys
    exact absurd hkey (by decide)
  · obtain ⟨rfl, -⟩ := List.cons.inj hkeys
    decide
  · simp at hkeys
    obtain ⟨-, -, rfl, -⟩ := hkeys
    exact absurd hkey (by decide)
  · simp at hkeys
    obtain ⟨-, -, -, rfl, -⟩ := hkeys
    exact absurd hkey (by decide)
  · simp at hkeys

/-- A backspace with nothing typed is enough. -/
theorem not_getlineEdits_backspace : ¬ GetlineEdits 0xFFFFFFFF 256 [0x08] := by
  intro hedits
  have hwaits : Waits erasesKey endsKey (fullLine 256) [] [] :=
    ⟨by simp, fun p q hsplit => by rw [(List.append_eq_nil_iff.mp hsplit.symm).1]; rfl⟩
  have hindex : (shellGetlineLoop 0xFFFFFFFF 256 (echoed [0x08]) (.cleared 256)).1.index =
      0xFFFFFFFF :=
    shellGetlineLoop_wraps (by decide) (.inl rfl) hwaits rfl (LineBuffer.holds_cleared (by decide))
  obtain ⟨-, hwithin, -⟩ := hedits [0x08] [] rfl
  exact absurd (hindex ▸ hwithin) (by decide)

/-- The `int` the function returns, `*eof`, and the keys to come. -/
structure ReadlineEnd where
  count : BitVec 32
  eof : Bool
  rest : List UInt8
  deriving DecidableEq, Repr

/-- The loop of `lua_fs_shell_readline`. -/
def fsReadlineLoop (sizeMax len : Nat) :
    List UInt8 → LineBuffer → LineBuffer × Option ReadlineEnd
  | [], buf => (buf, if buf.index < len - 1 then none else some ⟨.ofNat 32 (len - 1), false, []⟩)
  | c :: keys, buf =>
      if buf.index < len - 1 then
        if c = 0x08 ∨ c = 0x7F then
          if buf.index > 0 then fsReadlineLoop sizeMax len keys ((buf.retreat sizeMax).store 0)
          else fsReadlineLoop sizeMax len keys buf
        else if c = 0x04 then (buf, some ⟨.ofNat 32 buf.index, true, keys⟩)
        else if c = 0x0A ∨ c = 0x0D then (buf, some ⟨.ofNat 32 buf.index, false, keys⟩)
        else fsReadlineLoop sizeMax len keys (buf.store c).advance
      else (buf, some ⟨.ofNat 32 (len - 1), false, c :: keys⟩)

/-- `lua_fs_shell_readline` in the buffer of its caller. -/
def fsReadlineInto (sizeMax len : Nat) (keys : List UInt8) : LineBuffer × Option ReadlineEnd :=
  fsReadlineLoop sizeMax len keys (.cleared len)

/-- The loop is the reader of the editing rule on the line its buffer holds. -/
theorem fsReadlineLoop_eq (sizeMax : Nat) (keys : List UInt8) {len : Nat} {line : Bytes}
    {buf : LineBuffer} (hbuf : buf.Holds len line) :
    ∃ buf' line', buf'.Holds len line' ∧
      fsReadlineLoop sizeMax len keys buf =
        (buf', (readLine erasesKey endsKey (fullLine len) keys line).map fun r =>
          ⟨.ofNat 32 r.line.length, decide (r.stop = some 0x04), r.rest⟩) ∧
      ∀ r, readLine erasesKey endsKey (fullLine len) keys line = some r → line' = r.line := by
  have hfits := hbuf.fits
  induction keys generalizing line buf with
  | nil =>
      refine ⟨buf, line, hbuf, ?_⟩
      rw [fsReadlineLoop, hbuf.index]
      by_cases hroom : line.length < len - 1
      · rw [if_pos hroom, readLine_waiting hroom]
        exact ⟨rfl, by simp⟩
      · have hlen : len - 1 = line.length := by omega
        rw [if_neg hroom, readLine_atFull hroom, hlen]
        exact ⟨rfl, by simp⟩
  | cons c keys ih =>
      rw [fsReadlineLoop, hbuf.index]
      by_cases hroom : line.length < len - 1
      · rw [if_pos hroom, readLine_key hroom]
        by_cases herase : c = 0x08 ∨ c = 0x7F
        · rw [if_pos herase, if_pos herase]
          by_cases hpos : line.length > 0
          · have hbuf' := hbuf.erase (List.ne_nil_of_length_pos hpos) sizeMax
            rw [if_pos hpos]
            exact ih hbuf' hbuf'.fits
          · have hline : line = [] := List.length_eq_zero_iff.mp (by omega)
            rw [if_neg hpos, hline, List.dropLast_nil, ← hline]
            exact ih hbuf hfits
        · rw [if_neg herase, if_neg herase]
          by_cases hends : c = 0x04 ∨ c = 0x0A ∨ c = 0x0D
          · rw [if_pos hends]
            refine ⟨buf, line, hbuf, ?_, by simp⟩
            by_cases heot : c = 0x04
            · rw [if_pos heot]
              simp [heot]
            · rw [if_neg heot, if_pos (hends.resolve_left heot)]
              simp [heot]
          · have hbuf' := hbuf.append hroom c
            rw [if_neg hends, if_neg fun h => hends (.inl h), if_neg fun h => hends (.inr h)]
            exact ih hbuf' hbuf'.fits
      · have hlen : len - 1 = line.length := by omega
        rw [if_neg hroom, readLine_atFull hroom, hlen]
        exact ⟨buf, line, hbuf, rfl, by simp⟩

/-- The function writes only its buffer. Once it returns, at the stop and with nothing read
beyond it, it has left there the edited line and then zero bytes, and it returns the length
of the line and whether the last key was Ctrl+D. -/
def ReadlineRefines (sizeMax len : Nat) (keys : List UInt8) : Prop :=
  (∀ i ∈ (fsReadlineInto sizeMax len keys).1.written, i < len) ∧
  match (fsReadlineInto sizeMax len keys).2 with
  | none => Waits erasesKey endsKey (fullLine len) [] keys
  | some e => ∃ typed r, Stops erasesKey endsKey (fullLine len) [] keys typed r ∧
      (fsReadlineInto sizeMax len keys).1.cells = LineBuffer.lineCells len r.line ∧
      e.count.toInt = r.line.length ∧ r.line.length ≤ len - 1 ∧
      (e.eof = true ↔ (typed ++ r.stop.toList).getLast? = some 0x04) ∧ e.rest = r.rest

/-- Only Ctrl+D ends with Ctrl+D. -/
theorem stop_eq_eot_iff {len : Nat} {keys typed : List UInt8} {r : Reading UInt8}
    (h : Stops erasesKey endsKey (fullLine len) [] keys typed r) :
    r.stop = some 0x04 ↔ (typed ++ r.stop.toList).getLast? = some 0x04 := by
  cases hstop : r.stop with
  | some key => simp
  | none =>
      refine iff_of_false (by simp) fun hlast => ?_
      rw [Option.toList_none, List.append_nil] at hlast
      have heot := h.ordinary 0x04 (List.mem_of_getLast? hlast)
      exact absurd heot (by decide)

theorem readlineRefines_of_int {sizeMax len : Nat} (hlen : 1 ≤ len) (hint : len ≤ 2 ^ 31)
    (keys : List UInt8) : ReadlineRefines sizeMax len keys := by
  obtain ⟨buf, line, hholds, hloop, hline⟩ :=
    fsReadlineLoop_eq sizeMax keys (LineBuffer.holds_cleared hlen)
  rw [ReadlineRefines, fsReadlineInto, hloop]
  refine ⟨hholds.written, ?_⟩
  obtain ⟨r, typed, hread, hstops⟩ | ⟨hread, hwaits⟩ :=
    readLine_spec erasesKey endsKey (fullLine len) keys []
  · rw [hread]
    obtain rfl := hline r hread
    have hfits := hholds.fits
    have hcount : (BitVec.ofNat 32 r.line.length).toInt = r.line.length := by
      rw [BitVec.toInt_ofNat', Int.bmod_eq_of_le (by omega) (by omega)]
    refine ⟨typed, r, hstops, hholds.cells, hcount, by omega, ?_, rfl⟩
    rw [← stop_eq_eot_iff hstops]
    exact decide_eq_true_iff
  · rw [hread]
    exact hwaits

theorem readlineRefines_backspace : ReadlineRefines 0xFFFFFFFF 256 (ascii "\x08ab\x08c\n.") :=
  readlineRefines_of_int (by decide) (by decide) _

/-- An `int` cannot count that many characters. -/
theorem not_readlineRefines_replicate {sizeMax n : Nat} (hn : 2 ^ 31 ≤ n) :
    ¬ ReadlineRefines sizeMax (n + 1) (List.replicate n 0x61) := by
  rintro ⟨-, hreturns⟩
  have hplain : ∀ key ∈ List.replicate n (0x61 : UInt8),
      erasesKey key = false ∧ stops erasesKey endsKey key = false := by
    intro key hkey
    obtain rfl := List.eq_of_mem_replicate hkey
    decide
  cases hend : (fsReadlineInto sizeMax (n + 1) (List.replicate n 0x61)).2 with
  | none =>
      rw [hend] at hreturns
      have hroom := hreturns.room _ [] (List.append_nil _).symm
      rw [edited_eq_append fun key hkey => (hplain key hkey).1, List.nil_append, fullLine,
        List.length_replicate] at hroom
      exact absurd hroom (by simp)
  | some e =>
      rw [hend] at hreturns
      obtain ⟨typed, r, hstops, -, hcount, -⟩ := hreturns
      have hint := BitVec.toInt_lt (x := e.count)
      have hstop := hstops.stop
      cases hr : r.stop with
      | none =>
          rw [hr] at hstop
          have hfull : n ≤ r.line.length := of_decide_eq_true hstop
          omega
      | some key =>
          rw [hr] at hstop
          have hkey := (hplain key (by rw [hstops.split, hr]; simp)).2
          exact absurd (hkey.symm.trans hstop.1) Bool.false_ne_true

theorem not_readlineRefines_long :
    ¬ ReadlineRefines 0xFFFFFFFF (2 ^ 31 + 1) (List.replicate (2 ^ 31) 0x61) :=
  not_readlineRefines_replicate (Nat.le_refl _)

/-- In a buffer with room for a character, the function returns the lines that the commands
are given. -/
theorem luaFsShellReadline_eq {len : Nat} {keys : List UInt8} {line : Bytes}
    (hroom : line.length < len - 1) :
    luaFsShellReadline len keys line =
      (readLine erasesKey endsKey (fullLine len) keys line).map fun r =>
        (⟨r.line, decide (r.stop = some 0x04)⟩, r.rest) := by
  induction keys generalizing line with
  | nil =>
      rw [luaFsShellReadline, readLine_waiting hroom]
      rfl
  | cons c keys ih =>
      rw [luaFsShellReadline, readLine_key hroom]
      by_cases herase : c = 0x08 ∨ c = 0x7F
      · have hshorter : line.dropLast.length < len - 1 := by
          rw [List.length_dropLast]
          omega
        rw [if_pos herase, if_pos herase, ih hshorter]
      · rw [if_neg herase, if_neg herase]
        by_cases hends : c = 0x04 ∨ c = 0x0A ∨ c = 0x0D
        · rw [if_pos hends]
          by_cases heot : c = 0x04
          · rw [if_pos heot]
            simp [heot]
          · rw [if_neg heot, if_pos (hends.resolve_left heot)]
            simp [heot]
        · rw [if_neg hends, if_neg fun h => hends (.inl h), if_neg fun h => hends (.inr h)]
          by_cases hmore : line.length + 1 < len - 1
          · have hlonger : (line ++ [c]).length < len - 1 := by
              rwa [List.length_append, List.length_singleton]
            rw [if_pos hmore, ih hlonger]
          · have hfull : ¬ (line ++ [c]).length < len - 1 := by
              rwa [List.length_append, List.length_singleton]
            rw [if_neg hmore, readLine_atFull hfull]
            rfl

/-- What the commands are given is what the function leaves in their buffer. -/
theorem fsReadlineInto_eq {sizeMax len : Nat} (hlen : 2 ≤ len) (keys : List UInt8) :
    (fsReadlineInto sizeMax len keys).2 = (luaFsShellReadline len keys []).map (fun l =>
      ⟨.ofNat 32 l.1.text.length, l.1.eof, l.2⟩) ∧
    ∀ l rest, luaFsShellReadline len keys [] = some (l, rest) →
      (fsReadlineInto sizeMax len keys).1.cells.take l.text.length = l.text := by
  have hroom : ([] : Bytes).length < len - 1 := by
    rw [List.length_nil]
    omega
  obtain ⟨buf, line, hholds, hloop, hline⟩ := fsReadlineLoop_eq sizeMax keys
    (LineBuffer.holds_cleared (show 1 ≤ len by omega))
  rw [luaFsShellReadline_eq hroom, fsReadlineInto, hloop]
  refine ⟨by rw [Option.map_map]; rfl, fun l rest hl => ?_⟩
  obtain ⟨r, hread, hr⟩ := Option.map_eq_some_iff.mp hl
  obtain ⟨rfl, -⟩ := Prod.mk.inj hr
  rw [hholds.cells, hline r hread, LineBuffer.lineCells, List.take_left]

end LuaZephyr
