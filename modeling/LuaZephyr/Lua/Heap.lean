import LuaZephyr.Lua.Value
import LuaZephyr.Library.Patch
import LuaZephyr.Library.CString
import Mathlib.Logic.Function.Basic

/-!
# The heap behind a Lua state

Each Lua state allocates through `lua_zephyr_allocator` from its own `sys_heap`.
The kernel heap is known by what it promises: a successful allocation returns a
block not in use, whose contents are whatever was there before. `outcome` holds,
for each allocation in turn, whether it succeeds and what the block then
contains, so that a statement about every `outcome` is one about every heap.
-/

namespace LuaZephyr

/-- Undefined behaviour the model detects instead of continuing. -/
inductive Fault where
  | outOfBounds
  | freedBlock
  | badIndex
  deriving DecidableEq, Repr

/-- A pointer into a heap block. -/
structure Ptr where
  block : Nat
  offset : Nat
  deriving DecidableEq, Repr

/-- Pointer arithmetic in bytes. -/
def Ptr.add (p : Ptr) (n : Nat) : Ptr := { p with offset := p.offset + n }

@[simp] theorem Ptr.add_block (p : Ptr) (n : Nat) : (p.add n).block = p.block := rfl

@[simp] theorem Ptr.add_offset (p : Ptr) (n : Nat) : (p.add n).offset = p.offset + n := rfl

/-- A `struct sys_heap`: the blocks in use, how many allocations were attempted,
and the outcome of each one. -/
structure SysHeap where
  blocks : Nat → Option Bytes
  next : Nat
  outcome : Nat → Option (Nat → UInt8)

namespace SysHeap

/-- The contents an allocation of `n` bytes starts with. -/
def residue (g : Nat → UInt8) (n : Nat) : Bytes := (List.range n).map g

@[simp] theorem length_residue (g : Nat → UInt8) (n : Nat) : (residue g n).length = n := by
  simp [residue]

/-- `sys_heap_free`: the block must be in use. -/
def free (h : SysHeap) (block : Nat) : Except Fault SysHeap :=
  match h.blocks block with
  | none => .error .freedBlock
  | some _ => .ok { h with blocks := Function.update h.blocks block none }

/-- `sys_heap_realloc`: a fresh block for a null pointer, else a block that keeps
the old contents up to the smaller size. A failure leaves the heap as it was. -/
def realloc (h : SysHeap) (ptr : Option Nat) (nsize : Nat) : Except Fault (Option Nat × SysHeap) :=
  match ptr, h.outcome h.next with
  | none, none => .ok (none, { h with next := h.next + 1 })
  | none, some g =>
      .ok (some h.next, { h with
        blocks := Function.update h.blocks h.next (some (residue g nsize))
        next := h.next + 1 })
  | some p, outcome =>
      match h.blocks p, outcome with
      | none, _ => .error .freedBlock
      | some _, none => .ok (none, { h with next := h.next + 1 })
      | some old, some g =>
          .ok (some h.next, { h with
            blocks := Function.update (Function.update h.blocks p none) h.next
              (some (old.take nsize ++ (residue g nsize).drop old.length))
            next := h.next + 1 })

end SysHeap

/-- The `lua_Alloc` function of every Lua state. The old size is not used. -/
def luaZephyrAllocator (h : SysHeap) (ptr : Option Nat) (_osize nsize : Nat) :
    Except Fault (Option Nat × SysHeap) :=
  if nsize = 0 then
    match ptr with
    | some p =>
        match h.free p with
        | .ok h' => .ok (none, h')
        | .error e => .error e
    | none => .ok (none, h)
  else
    h.realloc ptr nsize

namespace SysHeap

/-- The initial contents of the next block of `n` bytes; none when there will be no
block. A request for nothing gets none. -/
def freshContents (h : SysHeap) (n : Nat) : Option Bytes :=
  if n = 0 then none else (h.outcome h.next).map (residue · n)

/-- The heap with its next block in use. -/
def withFresh (h : SysHeap) (bs : Bytes) : SysHeap :=
  { h with blocks := Function.update h.blocks h.next (some bs), next := h.next + 1 }

/-- The heap after a request that got no block. -/
def withoutFresh (h : SysHeap) (n : Nat) : SysHeap :=
  if n = 0 then h else { h with next := h.next + 1 }

@[simp] theorem withFresh_blocks_next (h : SysHeap) (bs : Bytes) :
    (h.withFresh bs).blocks h.next = some bs := by
  simp [withFresh]

theorem length_freshContents {h : SysHeap} {n : Nat} {bs : Bytes}
    (hbs : h.freshContents n = some bs) : bs.length = n := by
  unfold freshContents at hbs
  split at hbs
  · contradiction
  · obtain ⟨g, -, rfl⟩ := Option.map_eq_some_iff.mp hbs
    exact length_residue g n

theorem freshContents_pos {h : SysHeap} {n : Nat} {bs : Bytes}
    (hbs : h.freshContents n = some bs) : 0 < n := by
  unfold freshContents at hbs
  split at hbs
  · contradiction
  · omega

end SysHeap

theorem luaZephyrAllocator_none {h : SysHeap} {n : Nat} (hnone : h.freshContents n = none) :
    luaZephyrAllocator h none 0 n = .ok (none, h.withoutFresh n) := by
  unfold SysHeap.freshContents at hnone
  by_cases hn : n = 0
  · simp [luaZephyrAllocator, SysHeap.withoutFresh, hn]
  · rw [if_neg hn, Option.map_eq_none_iff] at hnone
    simp [luaZephyrAllocator, SysHeap.withoutFresh, hn, SysHeap.realloc, hnone]

theorem luaZephyrAllocator_some {h : SysHeap} {n : Nat} {bs : Bytes}
    (hsome : h.freshContents n = some bs) :
    luaZephyrAllocator h none 0 n = .ok (some h.next, h.withFresh bs) := by
  unfold SysHeap.freshContents at hsome
  split at hsome
  · contradiction
  · rename_i hn
    obtain ⟨g, hg, rfl⟩ := Option.map_eq_some_iff.mp hsome
    simp [luaZephyrAllocator, SysHeap.withFresh, hn, SysHeap.realloc, hg]

theorem luaZephyrAllocator_free {h : SysHeap} {p : Nat} {bs : Bytes}
    (hlive : h.blocks p = some bs) (n : Nat) :
    luaZephyrAllocator h (some p) n 0 =
      .ok (none, { h with blocks := Function.update h.blocks p none }) := by
  simp [luaZephyrAllocator, SysHeap.free, hlive]

end LuaZephyr
