import LuaZephyr.Zbus.Bindings
import LuaZephyr.MsgDescr.Encode
import LuaZephyr.MsgDescr.Decode

/-!
# What one method call does

One specification for each of `channel:pub`, `channel:read` and `observer:wait_msg`,
for calls whose arguments pass the method's checks. Each lists every way to return
and every way to raise, with the values returned, the message that reached zbus and
what was recorded of raw memory. Everything below is derived from these three.

Arguments that do not pass the checks raise an error before anything is obtained, and are left
out. The state of zbus is whatever the parameter makes of it, also when a call fails: what a
failed call leaves is a matter of the modules that need to know it.
-/

namespace LuaZephyr

open Outcome Patch

variable {β : Type}

section Rules

variable {s : State β} {E : Exn → State β → Prop}

theorem wp_expectArguments {n : Nat} (h : s.stack.length = n) {Q : PUnit → State β → Prop} :
    wp (expectArguments n) Q E s ↔ Q ⟨⟩ s := by
  simp [expectArguments, h]

theorem wp_luaAllocRaw {size : Nat} {Q : Option Ptr → State β → Prop} :
    wp (luaAllocRaw size) Q E s ↔
      match s.heap.freshContents size with
      | none => Q none { s with heap := s.heap.withoutFresh size }
      | some bs => Q (some ⟨s.heap.next, 0⟩) { s with
          heap := s.heap.withFresh bs
          rawLog := s.rawLog ++ [.alloc s.heap.next size] } := by
  cases hfresh : s.heap.freshContents size with
  | none =>
      simp only [luaAllocRaw, runAllocator, wp_bind, wp_get, luaZephyrAllocator_none hfresh,
        wp_set, wp_pure]
  | some bs =>
      simp only [luaAllocRaw, runAllocator, wp_bind, wp_get, luaZephyrAllocator_some hfresh,
        wp_set, wp_pure, wp_modify]

theorem wp_luaFreeRaw {ptr : Ptr} {size : Nat} {bs : Bytes}
    (hlive : s.heap.blocks ptr.block = some bs) {Q : PUnit → State β → Prop} :
    wp (luaFreeRaw ptr size) Q E s ↔
      Q ⟨⟩ { s with
        heap := { s.heap with blocks := Function.update s.heap.blocks ptr.block none }
        rawLog := s.rawLog ++ [.free ptr.block size] } := by
  simp only [luaFreeRaw, runAllocator, wp_bind, wp_get, luaZephyrAllocator_free hlive, wp_set,
    wp_pure, wp_modify]

/-- A buffer that is released at once after the work on it. -/
theorem rawLog_released {log log' : List RawEvent} {block size : Nat}
    (h : log' = log ++ [.alloc block size]) :
    log' ++ [.free block size] = log ++ [.alloc block size, .free block size] := by
  rw [h, List.append_assoc]
  rfl

theorem wp_zbusChanPub {zb : Zbus β} {chan block : Nat} {timeout : LuaInteger} {bs : Bytes}
    (hblock : s.heap.blocks block = some bs) (hlen : bs.length = (zb.chan chan).msgSize)
    {Q : LuaInteger → State β → Prop} :
    wp (zbusChanPub zb chan ⟨block, 0⟩ timeout) Q E s ↔
      Q (Errno.result (zb.chanPub chan bs timeout s.bus).1)
        { s with bus := (zb.chanPub chan bs timeout s.bus).2 } := by
  have hblock' : s.heap.blocks (Ptr.mk block 0).block = some bs := hblock
  simp only [zbusChanPub, wp_bind, wp_get, wp_set, wp_pure]
  rw [wp_loadBytes hblock', ← hlen, if_pos (by simp), slice_zero_length]

end Rules

variable (tgt : Target) (zb : Zbus β)

/-- The `err` and the state of zbus once a message is complete. Under a descriptor
of message size zero nothing is published. -/
def publish (chan : Nat) (descr : LuaMsgDescr) (message : Bytes) (timeout : LuaInteger) (b : β) :
    LuaInteger × β :=
  if descr.msgSize = 0 then (einval, b)
  else (Errno.result (zb.chanPub chan message timeout b).1, (zb.chanPub chan message timeout b).2)

/-- The ways `channel:pub` returns. -/
def PubReturns (chan : Nat) (t : Value) (timeout : LuaInteger) (s : State β) (rs : List Value)
    (u : State β) : Prop :=
  match s.heap.freshContents (zb.chan chan).msgSize with
  | none => rs = [.integer enomem] ∧ u.rawLog = s.rawLog ∧ u.bus = s.bus
  | some buf =>
      u.rawLog = s.rawLog ++
        [.alloc s.heap.next (zb.chan chan).msgSize, .free s.heap.next (zb.chan chan).msgSize] ∧
      match (zb.chan chan).userData with
      | none => rs = [.integer einval] ∧ u.bus = s.bus
      | some descr => ∃ ws, tableWrites tgt descr.fields t 0 = .ok ws ∧
          NoFail s.apiFails s.apiCalls (decodeCost tgt descr.fields t) ∧
          (putAll buf ws).length = buf.length ∧
          rs = [.integer (publish zb chan descr (putAll buf ws) timeout s.bus).1] ∧
          u.bus = (publish zb chan descr (putAll buf ws) timeout s.bus).2

/-- The ways `channel:pub` raises: always with the message buffer in hand. -/
def PubRaises (chan : Nat) (t : Value) (s : State β) (e : Exn) (u : State β) : Prop :=
  ∃ buf descr, s.heap.freshContents (zb.chan chan).msgSize = some buf ∧
    (zb.chan chan).userData = some descr ∧
    u.rawLog = s.rawLog ++ [.alloc s.heap.next (zb.chan chan).msgSize] ∧ u.bus = s.bus ∧
    ((e = .error .memory ∧ ¬ NoFail s.apiFails s.apiCalls (decodeCost tgt descr.fields t)) ∨
      (∃ err, e = .error err ∧ tableWrites tgt descr.fields t 0 = .error err) ∨
      (e = .fault .outOfBounds ∧ ¬ Fits tgt descr.fields 0 (zb.chan chan).msgSize))

theorem chanPub_spec {chan : Nat} {es : Entries} {mt : Option Nat} {v : Value}
    {timeout : LuaInteger} (hv : tgt.toInteger? v = some timeout) (s : State β) :
    wp (callMethod (chanPub tgt zb) [.userdata .zbusChannel chan, .table es mt, v])
      (PubReturns tgt zb chan (.table es mt) timeout s)
      (PubRaises tgt zb chan (.table es mt) s) s := by
  let entry : State β := { s with stack := [v, .table es mt, .userdata .zbusChannel chan] }
  have hcount : entry.stack.length = 3 := rfl
  have harg1 : valueAt entry.stack (1 : Nat) = some (.userdata .zbusChannel chan) := rfl
  have harg2 : valueAt entry.stack (2 : Nat) = some (.table es mt) := rfl
  have harg3 : valueAt entry.stack (3 : Nat) = some v := rfl
  rw [wp_callMethod]
  change wp (chanPub tgt zb) _ _ entry
  unfold chanPub
  rw [wp_bind, wp_expectArguments hcount, wp_bind, checkZbusChannel, wp_luaLCheckudata harg1,
    wp_bind, wp_luaLChecktypeTable harg2, wp_bind, wp_luaLCheckinteger harg3 hv]
  dsimp only
  rw [wp_bind, wp_luaAllocRaw]
  cases hfresh : s.heap.freshContents (zb.chan chan).msgSize with
  | none =>
      simp only [wp_bind, luaPushinteger, wp_pushValue, wp_pure, PubReturns, hfresh]
      exact ⟨rfl, rfl, rfl⟩
  | some buf =>
      have hlen := SysHeap.length_freshContents hfresh
      let held : State β := { entry with
        heap := s.heap.withFresh buf
        rawLog := s.rawLog ++ [.alloc s.heap.next (zb.chan chan).msgSize] }
      have hlive : held.heap.blocks s.heap.next = some buf := SysHeap.withFresh_blocks_next _ _
      change wp _ _ _ held
      rw [wp_bind]
      unfold luaTableToMsgStruct
      cases hdescr : (zb.chan chan).userData with
      | none =>
          rw [wp_pure, wp_bind, if_neg (by simp), wp_pure, wp_bind, wp_luaFreeRaw hlive]
          unfold PubReturns
          rw [hfresh, hdescr]
          exact ⟨rawLog_released rfl, rfl, rfl⟩
      | some descr =>
          rw [wp_bind]
          apply (luaMsgDescrFromTable_decodes tgt descr.fields 0 2 (.table es mt) held hlive
            (by decide) harg2).mono
          · rintro _ u ⟨ws, hws, hput, -, hstored, -, hok⟩
            have hbus : u.bus = s.bus := hstored.bus
            have hlog : u.rawLog = s.rawLog ++ [.alloc s.heap.next (zb.chan chan).msgSize] :=
              hstored.rawLog
            have hfinish (err : LuaInteger) (b : β) (hpub : (err, b) =
                publish zb chan descr (putAll buf ws) timeout s.bus) : wp (do
                  luaFreeRaw ⟨s.heap.next, 0⟩ (zb.chan chan).msgSize
                  luaPushinteger err
                  return 1) (fun n t => PubReturns tgt zb chan (.table es mt) timeout s
                    (t.stack.take n).reverse t) (PubRaises tgt zb chan (.table es mt) s)
                  { u with bus := b } := by
              rw [wp_bind, wp_luaFreeRaw hstored.block_eq]
              unfold PubReturns
              rw [hfresh, hdescr]
              exact ⟨rawLog_released hlog, ws, hws, hok, hput, by rw [← hpub]; rfl,
                by rw [← hpub]⟩
            rw [wp_pure, wp_bind]
            by_cases hzero : descr.msgSize = 0
            · rw [if_neg (by simpa using hzero), wp_pure]
              exact hfinish einval u.bus (by rw [publish, if_pos hzero, hbus])
            · rw [if_pos hzero, wp_zbusChanPub hstored.block_eq (hput.trans hlen), hbus]
              exact hfinish _ _ (by rw [publish, if_neg hzero])
          · rintro e u ⟨⟨bs, hstored⟩, hcause⟩
            rw [hlen] at hcause
            exact ⟨buf, descr, hfresh, hdescr, hstored.rawLog, hstored.bus, hcause⟩

/-- What the message buffer holds after `zbus_chan_read`: the message, or on an error
whatever it held before. -/
def received (r : Except Errno Bytes) (buf : Bytes) : Bytes :=
  match r with
  | .ok message => message
  | .error _ => buf

/-- The `err` that stands for the result of a kernel call. -/
def errOf {α : Type} (r : Except Errno α) : LuaInteger :=
  match r with
  | .ok _ => 0
  | .error e => e.code

theorem errOf_eq_zero {α : Type} {r : Except Errno α} : errOf r = 0 ↔ ∃ a, r = .ok a := by
  cases r with
  | ok a => simp [errOf]
  | error e =>
      have h := e.code_ne_zero
      simpa [errOf] using h

/-- The value `msg_struct_to_lua_table` pushes for the bytes of a message. -/
def shownMessage (chan : Nat) (bs : Bytes) : Option Value :=
  match (zb.chan chan).userData with
  | some descr => messageTable tgt descr.fields bs 0
  | none => some .nil

/-- Its allocating calls. -/
def shownCost (chan : Nat) (bs : Bytes) : Nat :=
  match (zb.chan chan).userData with
  | some descr => 1 + encodeCost tgt bs descr.fields 0
  | none => 0

/-- What is behind a message in its buffer does not change how it is shown. -/
theorem shownMessage_put {tgt : Target} {zb : Zbus β} {chan : Nat} {buf message : Bytes} {v : Value}
    (h : shownMessage tgt zb chan message = some v) :
    shownMessage tgt zb chan (put buf ⟨0, message⟩) = some v := by
  rw [put_zero]
  unfold shownMessage at h ⊢
  cases hdescr : (zb.chan chan).userData with
  | none =>
      rw [hdescr] at h
      exact h
  | some descr =>
      rw [hdescr] at h
      exact messageTable_longer _ h

theorem msgStructToLuaTable_encodes {block : Nat} {bs : Bytes} (chan : Nat) (s : State β)
    (hblock : s.heap.blocks block = some bs) :
    Encodes (msgStructToLuaTable tgt zb chan ⟨block, 0⟩) s (shownCost tgt zb chan bs)
      ((shownMessage tgt zb chan bs).map (· :: s.stack)) := by
  unfold msgStructToLuaTable shownCost shownMessage
  cases (zb.chan chan).userData with
  | some descr => exact luaMsgDescrToTable_encodes tgt descr.fields 0 s hblock
  | none => exact Encodes.pushValue .nil s

/-- The ways `channel:read` returns. -/
def ReadReturns (chan : Nat) (timeout : LuaInteger) (s : State β) (rs : List Value)
    (u : State β) : Prop :=
  match s.heap.freshContents (zb.chan chan).msgSize with
  | none => rs = [.integer enomem, .nil] ∧ u.rawLog = s.rawLog ∧ u.bus = s.bus
  | some buf =>
      u.rawLog = s.rawLog ++
        [.alloc s.heap.next (zb.chan chan).msgSize, .free s.heap.next (zb.chan chan).msgSize] ∧
      u.bus = (zb.chanRead chan timeout s.bus).2 ∧
      NoFail s.apiFails s.apiCalls
        (shownCost tgt zb chan (received (zb.chanRead chan timeout s.bus).1 buf)) ∧
      ∃ v, shownMessage tgt zb chan (received (zb.chanRead chan timeout s.bus).1 buf) = some v ∧
        rs = [.integer (errOf (zb.chanRead chan timeout s.bus).1), v]

/-- The ways `channel:read` raises. -/
def ReadRaises (chan : Nat) (timeout : LuaInteger) (s : State β) (e : Exn) (u : State β) : Prop :=
  ∃ buf, s.heap.freshContents (zb.chan chan).msgSize = some buf ∧
    u.rawLog = s.rawLog ++ [.alloc s.heap.next (zb.chan chan).msgSize] ∧
    u.bus = (zb.chanRead chan timeout s.bus).2 ∧
    ((e = .error .memory ∧ ¬ NoFail s.apiFails s.apiCalls
        (shownCost tgt zb chan (received (zb.chanRead chan timeout s.bus).1 buf))) ∨
      (e = .fault .outOfBounds ∧
        shownMessage tgt zb chan (received (zb.chanRead chan timeout s.bus).1 buf) = none))

theorem wp_zbusChanRead {zb : Zbus β} {chan block : Nat} {timeout : LuaInteger} {buf : Bytes}
    {s : State β} {E : Exn → State β → Prop} (hblock : s.heap.blocks block = some buf)
    (hlen : buf.length = (zb.chan chan).msgSize) {Q : LuaInteger → State β → Prop} :
    wp (zbusChanRead zb chan ⟨block, 0⟩ timeout) Q E s ↔
      Q (errOf (zb.chanRead chan timeout s.bus).1) { s with
        heap := s.heap.withBlock block (received (zb.chanRead chan timeout s.bus).1 buf)
        bus := (zb.chanRead chan timeout s.bus).2 } := by
  simp only [zbusChanRead, wp_bind, wp_get, wp_set]
  cases hr : (zb.chanRead chan timeout s.bus).1 with
  | error e =>
      simp only [wp_pure, received, errOf, SysHeap.withBlock_self hblock]
  | ok message =>
      have hmessage : message.length = buf.length :=
        (zb.chanRead_length _ _ _ _ hr).trans hlen.symm
      have hput : put buf ⟨0, message⟩ = message := by
        rw [put_zero, List.drop_of_length_le hmessage.ge, List.append_nil]
      rw [wp_bind, wp_storeBytes (s := { s with bus := (zb.chanRead chan timeout s.bus).2 })
        (p := ⟨block, 0⟩) hblock, if_pos (by simp [hmessage]), wp_pure]
      simp only [hput, received, errOf]

theorem chanRead_spec {chan : Nat} {v : Value} {timeout : LuaInteger}
    (hv : tgt.toInteger? v = some timeout) (s : State β) :
    wp (callMethod (chanRead tgt zb) [.userdata .zbusChannel chan, v])
      (ReadReturns tgt zb chan timeout s) (ReadRaises tgt zb chan timeout s) s := by
  let entry : State β := { s with stack := [v, .userdata .zbusChannel chan] }
  have hcount : entry.stack.length = 2 := rfl
  have harg1 : valueAt entry.stack (1 : Nat) = some (.userdata .zbusChannel chan) := rfl
  have harg2 : valueAt entry.stack (2 : Nat) = some v := rfl
  rw [wp_callMethod]
  change wp (chanRead tgt zb) _ _ entry
  unfold chanRead
  rw [wp_bind, wp_expectArguments hcount, wp_bind, checkZbusChannel, wp_luaLCheckudata harg1,
    wp_bind, wp_luaLCheckinteger harg2 hv]
  dsimp only
  rw [wp_bind, wp_luaAllocRaw]
  cases hfresh : s.heap.freshContents (zb.chan chan).msgSize with
  | none =>
      simp only [wp_bind, luaPushinteger, luaPushnil, wp_pushValue, wp_pure, ReadReturns, hfresh]
      exact ⟨rfl, rfl, rfl⟩
  | some buf =>
      have hlen := SysHeap.length_freshContents hfresh
      let held : State β := { entry with
        heap := s.heap.withFresh buf
        rawLog := s.rawLog ++ [.alloc s.heap.next (zb.chan chan).msgSize] }
      have hlive : held.heap.blocks s.heap.next = some buf := SysHeap.withFresh_blocks_next _ _
      change wp _ _ _ held
      rw [wp_bind, wp_zbusChanRead hlive hlen, wp_bind, luaPushinteger, wp_pushValue, wp_bind]
      apply (msgStructToLuaTable_encodes tgt zb chan _
        (SysHeap.withBlock_blocks_self _ _ _)).mono
      · rintro _ u ⟨hstack, hu, -, hok⟩
        obtain ⟨shown, hshown, hstack⟩ := Option.map_eq_some_iff.mp hstack
        have hlive' : u.heap.blocks s.heap.next =
            some (received (zb.chanRead chan timeout s.bus).1 buf) := by
          rw [hu.heap]
          exact SysHeap.withBlock_blocks_self _ _ _
        have hlog : u.rawLog = s.rawLog ++ [.alloc s.heap.next (zb.chan chan).msgSize] := hu.rawLog
        rw [wp_bind, wp_luaFreeRaw hlive']
        unfold ReadReturns
        rw [hfresh]
        refine ⟨rawLog_released hlog, hu.bus, hok, shown, hshown, ?_⟩
        change (u.stack.take 2).reverse = _
        rw [← hstack]
        rfl
      · rintro e u ⟨hu, hcause⟩
        refine ⟨buf, hfresh, hu.rawLog, hu.bus, hcause.imp_right ?_⟩
        rintro ⟨he, hnone⟩
        exact ⟨he, Option.map_eq_none_iff.mp hnone⟩

/-- The ways `observer:wait_msg` returns. A message is shown from the whole buffer,
of which it is the beginning. -/
def WaitReturns (maxChanMsgSize obs : Nat) (timeout : LuaInteger) (s : State β)
    (rs : List Value) (u : State β) : Prop :=
  match s.heap.freshContents maxChanMsgSize with
  | none => rs = [.integer enomem, .nil, .nil] ∧ u.rawLog = s.rawLog ∧ u.bus = s.bus
  | some buf =>
      u.rawLog = s.rawLog ++
        [.alloc s.heap.next maxChanMsgSize, .free s.heap.next maxChanMsgSize] ∧
      u.bus = (zb.subWaitMsg obs timeout s.bus).2 ∧
      match (zb.subWaitMsg obs timeout s.bus).1 with
      | .error e => rs = [.integer e.code, .nil, .nil]
      | .ok (chan, message) =>
          message.length ≤ maxChanMsgSize ∧
          NoFail s.apiFails s.apiCalls (1 + shownCost tgt zb chan (put buf ⟨0, message⟩)) ∧
          ∃ v, shownMessage tgt zb chan (put buf ⟨0, message⟩) = some v ∧
            rs = [.integer 0, .userdata .zbusChannel chan, v]

/-- The ways `observer:wait_msg` raises: only with a message in hand. -/
def WaitRaises (maxChanMsgSize obs : Nat) (timeout : LuaInteger) (s : State β) (e : Exn)
    (u : State β) : Prop :=
  ∃ buf chan message, s.heap.freshContents maxChanMsgSize = some buf ∧
    (zb.subWaitMsg obs timeout s.bus).1 = .ok (chan, message) ∧
    u.rawLog = s.rawLog ++ [.alloc s.heap.next maxChanMsgSize] ∧
    u.bus = (zb.subWaitMsg obs timeout s.bus).2 ∧
    ((e = .error .memory ∧
        ¬ NoFail s.apiFails s.apiCalls (1 + shownCost tgt zb chan (put buf ⟨0, message⟩))) ∨
      (e = .fault .outOfBounds ∧ (maxChanMsgSize < message.length ∨
        shownMessage tgt zb chan (put buf ⟨0, message⟩) = none)))

theorem wp_zbusSubWaitMsg {zb : Zbus β} {obs block : Nat} {timeout : LuaInteger} {buf : Bytes}
    {s : State β} {E : Exn → State β → Prop} (hblock : s.heap.blocks block = some buf)
    {Q : Except Errno Nat → State β → Prop} :
    wp (zbusSubWaitMsg zb obs ⟨block, 0⟩ timeout) Q E s ↔
      match (zb.subWaitMsg obs timeout s.bus).1 with
      | .error e => Q (.error e) { s with bus := (zb.subWaitMsg obs timeout s.bus).2 }
      | .ok (chan, message) =>
          if message.length ≤ buf.length then
            Q (.ok chan) { s with
              heap := s.heap.withBlock block (put buf ⟨0, message⟩)
              bus := (zb.subWaitMsg obs timeout s.bus).2 }
          else
            E (.fault .outOfBounds) { s with bus := (zb.subWaitMsg obs timeout s.bus).2 } := by
  simp only [zbusSubWaitMsg, wp_bind, wp_get, wp_set]
  cases (zb.subWaitMsg obs timeout s.bus).1 with
  | error e => rfl
  | ok received =>
      obtain ⟨chan, message⟩ := received
      rw [wp_bind, wp_storeBytes (s := { s with bus := (zb.subWaitMsg obs timeout s.bus).2 })
        (p := ⟨block, 0⟩) hblock, Nat.zero_add]
      rfl

/-- The values pushed for a message: `err`, the channel and the table. -/
theorem pushReceived_encodes {block : Nat} {bs : Bytes} (chan : Nat) (s : State β)
    (hblock : s.heap.blocks block = some bs) :
    Encodes (pushReceived tgt zb ⟨block, 0⟩ (.ok chan)) s (1 + shownCost tgt zb chan bs)
      ((shownMessage tgt zb chan bs).map
        (· :: .userdata .zbusChannel chan :: .integer 0 :: s.stack)) := by
  rw [← Nat.zero_add (1 + _)]
  apply (Encodes.pushValue (.integer 0) s).seq (by simp)
  intro t ht hst
  apply (Encodes.allocating_push (.userdata .zbusChannel chan) t).seq (by simp)
  intro u hu htu
  have hstack : u.stack = .userdata .zbusChannel chan :: .integer 0 :: s.stack := by
    rw [← Option.some.inj hu, ← Option.some.inj ht]
  have h := msgStructToLuaTable_encodes tgt zb chan u
    (by rw [htu.heap, hst.heap]; exact hblock)
  rwa [hstack] at h

theorem subWaitMsg_spec {obs maxChanMsgSize : Nat} {v : Value} {timeout : LuaInteger}
    (hv : tgt.toInteger? v = some timeout) (rest : List Value) (s : State β) :
    wp (callMethod (subWaitMsg tgt zb maxChanMsgSize) (.userdata .zbusObserver obs :: v :: rest))
      (WaitReturns tgt zb maxChanMsgSize obs timeout s)
      (WaitRaises tgt zb maxChanMsgSize obs timeout s) s := by
  let entry : State β := { s with stack := (.userdata .zbusObserver obs :: v :: rest).reverse }
  have harg1 : valueAt entry.stack (1 : Nat) = some (.userdata .zbusObserver obs) :=
    valueAt_args rfl
  have harg2 : valueAt entry.stack (2 : Nat) = some v := valueAt_args rfl
  rw [wp_callMethod]
  change wp (subWaitMsg tgt zb maxChanMsgSize) _ _ entry
  unfold subWaitMsg
  rw [wp_bind, checkZbusObserver, wp_luaLCheckudata harg1, wp_bind,
    wp_luaLCheckinteger harg2 hv, wp_bind, wp_luaAllocRaw]
  cases hfresh : s.heap.freshContents maxChanMsgSize with
  | none =>
      simp only [wp_bind, luaPushinteger, luaPushnil, wp_pushValue, wp_pure, WaitReturns, hfresh]
      exact ⟨rfl, rfl, rfl⟩
  | some buf =>
      have hlen := SysHeap.length_freshContents hfresh
      let held : State β := { entry with
        heap := s.heap.withFresh buf
        rawLog := s.rawLog ++ [.alloc s.heap.next maxChanMsgSize] }
      have hlive : held.heap.blocks s.heap.next = some buf := SysHeap.withFresh_blocks_next _ _
      change wp _ _ _ held
      rw [wp_bind, wp_zbusSubWaitMsg hlive]
      cases hr : (zb.subWaitMsg obs timeout s.bus).1 with
      | error e =>
          change wp _ _ _ { held with bus := (zb.subWaitMsg obs timeout s.bus).2 }
          simp only [pushReceived, wp_bind, luaPushinteger, luaPushnil, wp_pushValue]
          refine (wp_luaFreeRaw (by exact hlive)).mpr ?_
          unfold WaitReturns
          rw [hfresh, hr]
          exact ⟨rawLog_released rfl, rfl, rfl⟩
      | ok received =>
          obtain ⟨chan, message⟩ := received
          change if message.length ≤ buf.length then _ else _
          rw [hlen]
          split
          · rename_i hfits
            let filled : State β := { held with
              heap := (s.heap.withFresh buf).withBlock s.heap.next (put buf ⟨0, message⟩)
              bus := (zb.subWaitMsg obs timeout s.bus).2 }
            change wp _ _ _ filled
            rw [wp_bind]
            apply (pushReceived_encodes tgt zb chan filled
              (SysHeap.withBlock_blocks_self _ _ _)).mono
            · rintro _ u ⟨hstack, hu, -, hok⟩
              obtain ⟨shown, hshown, hstack⟩ := Option.map_eq_some_iff.mp hstack
              have hlive' : u.heap.blocks s.heap.next = some (put buf ⟨0, message⟩) := by
                rw [hu.heap]
                exact SysHeap.withBlock_blocks_self _ _ _
              have hlog : u.rawLog = s.rawLog ++ [.alloc s.heap.next maxChanMsgSize] := hu.rawLog
              rw [wp_bind]
              apply (wp_luaFreeRaw hlive').mpr
              unfold WaitReturns
              rw [hfresh, hr]
              refine ⟨rawLog_released hlog, hu.bus, hfits, hok, shown, hshown, ?_⟩
              change (u.stack.take 3).reverse = _
              rw [← hstack]
              rfl
            · rintro e u ⟨hu, hcause⟩
              refine ⟨buf, chan, message, hfresh, hr, hu.rawLog, hu.bus, hcause.imp_right ?_⟩
              rintro ⟨he, hnone⟩
              exact ⟨he, .inr (Option.map_eq_none_iff.mp hnone)⟩
          · rename_i hlong
            exact ⟨buf, chan, message, hfresh, hr, rfl, rfl,
              .inr ⟨rfl, .inl (Nat.lt_of_not_le hlong)⟩⟩

end LuaZephyr
