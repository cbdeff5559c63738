import LuaZephyr.Lua.Environment

/-!
# Scripts that require libraries

A script may call `require` for any names in any order, and do with its own tables what it
likes. Each call may run out of memory at any point. What has once been returned for "zephyr"
is the complete library, and every later call returns the same table.

A script is only seen by the raw writes it makes between its calls. Tables have no metatables that
the functions of the libraries would obey, so `lua_setglobal` in `luaopen_fs` can only run out of
memory; a script with a `__newindex` on the table of globals is not covered, nor is one that
reaches the preloaded functions through the registry, takes the library out of `package.loaded`,
or replaces a field of the library once it is loaded.
-/

namespace LuaZephyr.Libraries

open Outcome SharedTables Runs

def zephyrName : Bytes := ascii "zephyr"

/-- The library is in `_LOADED`. -/
def Loaded (h : LibHeap) (r : Nat) : Prop :=
  ∃ l, registered h loadedTable = some (.table l) ∧ h.fields l zephyrName = some (.table r)

/-- The fields a complete library consists of. -/
def ModuleFields (h : LibHeap) (r r' : Nat) (k : Bytes) : Prop :=
  r' = r ∨ h.fields r (ascii "zbus") = some (.table r') ∨
    h.fields r (ascii "fs") = some (.table r') ∨
    (∃ name, (name = zbusChanMetatable ∨ name = zbusObsMetatable) ∧ MetaWrites h name r' k) ∨
    FsWrites r' k

/-- The fields nobody writes to but `luaz_openlibs` and `require`. -/
def Guarded (h : LibHeap) (r : Nat) (k : Bytes) : Prop :=
  (r = registryRef ∧ (k = loadedTable ∨ k = preloadTable)) ∨
    registered h preloadTable = some (.table r) ∨
    (registered h loadedTable = some (.table r) ∧ k = zephyrName) ∨
    ∃ m, Loaded h m ∧ ModuleFields h m r k

/-- Between the calls: `luaopen_zephyr` is preloaded under one name, and the library is complete
if it is loaded. -/
structure Ready (cfg : LibConfig) (h : LibHeap) : Prop where
  wellRegistered : WellRegistered h
  channels : IsTable h zbusChanMetatable
  observers : IsTable h zbusObsMetatable
  loaded : IsTable h loadedTable
  preloaded : ∃ p, registered h preloadTable = some (.table p) ∧
    ∀ k, h.fields p k = some (.function .luaopenZephyr) ↔ k = zephyrName
  complete : ∀ l v, registered h loadedTable = some (.table l) →
    h.fields l zephyrName = some v → ∃ r, v = .table r ∧ ZephyrModule cfg h r

/-- Then it is so still, and the library is the same. -/
structure Kept (cfg : LibConfig) (h h' : LibHeap) : Prop where
  ready : Ready cfg h'
  loadedAt : ∀ l, registered h loadedTable = some (.table l) →
    registered h' loadedTable = some (.table l)
  same : ∀ r, Loaded h r → Loaded h' r

namespace Kept

variable {cfg : LibConfig} {h h' h'' : LibHeap}

theorem refl (hready : Ready cfg h) : Kept cfg h h := ⟨hready, fun _ => id, fun _ => id⟩

theorem trans (first : Kept cfg h h') (second : Kept cfg h' h'') : Kept cfg h h'' where
  ready := second.ready
  loadedAt l hl := second.loadedAt l (first.loadedAt l hl)
  same r hr := second.same r (first.same r hr)

end Kept

theorem ZephyrModule.changed {W : Nat → Bytes → Prop} {cfg : LibConfig} {h h' : LibHeap} {r : Nat}
    (hmodule : ZephyrModule cfg h r) (hreg : WellRegistered h) (hopens : Opens W h h')
    (hW : ∀ r' k, ModuleFields h r r' k → ¬ W r' k) : ZephyrModule cfg h' r := by
  have hsame := hopens.changes.table hmodule.own.made.2 fun k => hW r k (.inl rfl)
  refine ⟨hmodule.own.changed hopens, fun k hk hk' => ?_, ?_, ?_⟩
  · rw [hsame, hmodule.wrappers k hk hk']
  · rw [hsame]
    refine hmodule.zbus.imp fun z hz hlib => hlib.changed hreg hopens
      (fun k => hW z k (.inr (.inl hz))) fun name hname => ⟨hW _ _ ?_, fun c hc k => hW c k ?_⟩
    · exact .inr (.inr (.inr (.inl ⟨name, hname, .inl ⟨rfl, rfl⟩⟩)))
    · exact .inr (.inr (.inr (.inl ⟨name, hname, .inr hc⟩)))
  · rw [hsame]
    exact hmodule.fs.imp fun f hf hlib => hlib.changed hreg hopens
      (fun k => hW f k (.inr (.inr (.inl hf)))) fun k hk => hW _ k (.inr (.inr (.inr (.inr hk))))

/-- Code that writes to no guarded field. -/
theorem Ready.kept {W : Nat → Bytes → Prop} {cfg : LibConfig} {h h' : LibHeap}
    (hready : Ready cfg h) (hopens : Opens W h h') (hW : ∀ r k, Guarded h r k → ¬ W r k) :
    Kept cfg h h' := by
  have hreg := hready.wellRegistered
  have hloaded : registered h' loadedTable = registered h loadedTable :=
    hopens.changes.fields _ _ hreg.registry_lt (hW _ _ (.inl ⟨rfl, .inl rfl⟩))
  have hpreload : registered h' preloadTable = registered h preloadTable :=
    hopens.changes.fields _ _ hreg.registry_lt (hW _ _ (.inl ⟨rfl, .inr rfl⟩))
  have hentry (l : Nat) (hl : registered h loadedTable = some (.table l)) :
      h'.fields l zephyrName = h.fields l zephyrName :=
    hopens.changes.fields _ _ (hreg.ref _ l hl).2 (hW _ _ (.inr (.inr (.inl ⟨hl, rfl⟩))))
  constructor
  · refine ⟨hopens.wellRegistered, hopens.isTable hready.channels, hopens.isTable hready.observers,
      hopens.isTable hready.loaded, ?_, fun l v hl hv => ?_⟩
    · obtain ⟨p, hp, hopen⟩ := hready.preloaded
      refine ⟨p, by rw [hpreload, hp], fun k => ?_⟩
      rw [hopens.changes.table (hreg.ref _ p hp).2 fun k => hW p k (.inr (.inl hp)), hopen]
    · rw [hloaded] at hl
      rw [hentry l hl] at hv
      obtain ⟨r, rfl, hmodule⟩ := hready.complete l v hl hv
      exact ⟨r, rfl, hmodule.changed hreg hopens fun r' k hfield =>
        hW r' k (.inr (.inr (.inr ⟨r, ⟨l, hl, hv⟩, hfield⟩)))⟩
  · intro l hl
    rw [hloaded, hl]
  · rintro r ⟨l, hl, hr⟩
    exact ⟨l, by rw [hloaded, hl], by rw [hentry l hl, hr]⟩

/-- An empty table becomes `_LOADED`. -/
theorem Ready.createLoaded {cfg : LibConfig} {h : LibHeap} (hready : Ready cfg h)
    (hnone : registered h loadedTable = none) :
    Kept cfg h (h.alloc.set registryRef loadedTable (some (.table h.next))) := by
  have hreg := hready.wellRegistered
  have hopens : Opens (fun r k => r = registryRef ∧ k = loadedTable) h
      (h.alloc.set registryRef loadedTable (some (.table h.next))) := by
    refine (Opens.refl hreg).alloc.register hreg ⟨rfl, rfl⟩
      ⟨Nat.le_refl _, Nat.lt_succ_self _⟩ fun name => ?_
    rw [registered, Heap.alloc_fields_ref hreg.ne_new]
    exact hreg.not_new (Nat.le_refl _) name
  have hentry : registered (h.alloc.set registryRef loadedTable (some (.table h.next)))
      loadedTable = some (.table h.next) := Heap.set_fields_self _
  constructor
  · refine ⟨hopens.wellRegistered, hopens.isTable hready.channels, hopens.isTable hready.observers,
      hopens.isTable hready.loaded, ?_, fun l v hl hv => ?_⟩
    · obtain ⟨p, hp, hopen⟩ := hready.preloaded
      have hroot := hreg.ne_registry hp
      refine ⟨p, ?_, fun k => ?_⟩
      · rw [registered, Heap.set_fields_key (by decide), Heap.alloc_fields_ref hreg.ne_new]
        exact hp
      · rw [Heap.set_fields_ref hroot, Heap.alloc_fields_ref (Nat.ne_of_lt (hreg.ref _ p hp).2),
          hopen]
    · obtain rfl := Item.table.inj (Option.some.inj (hentry.symm.trans hl))
      rw [Heap.set_fields_ref hreg.ne_new.symm, Heap.alloc_fields_next] at hv
      contradiction
  · intro l hl
    rw [hnone] at hl
    contradiction
  · rintro r ⟨l, hl, -⟩
    rw [hnone] at hl
    contradiction

section Writes

variable {cfg : LibConfig} {h : LibHeap}

theorem not_zephyrWrites_entry (hreg : WellRegistered h) {name : Bytes}
    (hname : name ≠ zbusChanMetatable ∧ name ≠ zbusObsMetatable) :
    ¬ ZephyrWrites h registryRef name := by
  rintro (((⟨-, hchan⟩ | hroot) | (⟨-, hobs⟩ | hroot)) | ⟨hglobals, -⟩)
  · exact hname.1 hchan
  · exact hreg.ne_registry hroot rfl
  · exact hname.2 hobs
  · exact hreg.ne_registry hroot rfl
  · exact absurd hglobals (by decide)

theorem not_zephyrWrites_table (hreg : WellRegistered h) {name : Bytes}
    (hname : name ≠ zbusChanMetatable ∧ name ≠ zbusObsMetatable) {r : Nat}
    (hr : registered h name = some (.table r)) (k : Bytes) : ¬ ZephyrWrites h r k := by
  rintro (((⟨hroot, -⟩ | hchan) | (⟨hroot, -⟩ | hobs)) | ⟨hglobals, -⟩)
  · exact hreg.ne_registry hr hroot
  · exact hname.1 (hreg.unshared _ _ r hr hchan)
  · exact hreg.ne_registry hr hroot
  · exact hname.2 (hreg.unshared _ _ r hr hobs)
  · exact Nat.ne_of_gt (hreg.ref _ r hr).1 hglobals

theorem loadedTable_ne : loadedTable ≠ zbusChanMetatable ∧ loadedTable ≠ zbusObsMetatable := by
  decide

theorem preloadTable_ne : preloadTable ≠ zbusChanMetatable ∧ preloadTable ≠ zbusObsMetatable := by
  decide

/-- Before the library is loaded, opening it writes to no guarded field. -/
theorem Ready.not_zephyrWrites (hready : Ready cfg h) (hnot : ∀ m, ¬ Loaded h m) (r : Nat)
    (k : Bytes) (hguarded : Guarded h r k) : ¬ ZephyrWrites h r k := by
  have hreg := hready.wellRegistered
  obtain ⟨rfl, rfl | rfl⟩ | hp | ⟨hl, -⟩ | ⟨m, hm, -⟩ := hguarded
  · exact not_zephyrWrites_entry hreg loadedTable_ne
  · exact not_zephyrWrites_entry hreg preloadTable_ne
  · exact not_zephyrWrites_table hreg preloadTable_ne hp k
  · exact not_zephyrWrites_table hreg loadedTable_ne hl k
  · exact absurd hm (hnot m)

/-- `_LOADED` is no part of the library. -/
theorem ZephyrModule.not_field {r : Nat} (hmodule : ZephyrModule cfg h r)
    (hreg : WellRegistered h) {l : Nat} (hl : registered h loadedTable = some (.table l))
    (k : Bytes) : ¬ ModuleFields h r l k := by
  rintro (rfl | hz | hf | ⟨name, hname, hmeta⟩ | ⟨hglobals, -⟩)
  · exact hmodule.own.unregistered _ hl
  · have hzbus := hmodule.zbus
    rw [hz] at hzbus
    exact hzbus.of_table.own.unregistered _ hl
  · have hfs := hmodule.fs
    rw [hf] at hfs
    exact hfs.of_table.own.unregistered _ hl
  · refine not_zephyrWrites_table hreg loadedTable_ne hl k ?_
    obtain rfl | rfl := hname
    · exact .inl (.inl hmeta)
    · exact .inl (.inr hmeta)
  · exact Nat.ne_of_gt (hreg.ref _ l hl).1 hglobals

/-- What another name is loaded as. -/
theorem Ready.storeOther (hready : Ready cfg h) {l : Nat}
    (hl : registered h loadedTable = some (.table l)) {name : Bytes} (hname : name ≠ zephyrName)
    (v : Option (Item LibFunction)) : Kept cfg h (h.set l name v) := by
  have hreg := hready.wellRegistered
  have hroot := hreg.ne_registry hl
  have hopens : Opens (fun r k => r = l ∧ k = name) h (h.set l name v) :=
    (Opens.refl hreg).set hroot (.inr ⟨rfl, rfl⟩) v
  refine hready.kept hopens ?_
  rintro r k (⟨rfl, -⟩ | hp | ⟨-, rfl⟩ | ⟨m, ⟨l', hl', hm⟩, hfield⟩) ⟨rfl, hk⟩
  · exact hroot rfl
  · exact absurd (hreg.unshared _ _ _ hp hl) (by decide)
  · exact hname hk.symm
  · obtain ⟨m', heq, hmodule⟩ := hready.complete l' _ hl' hm
    obtain rfl := Item.table.inj heq
    exact hmodule.not_field hreg hl k hfield

/-- The library is loaded. -/
theorem Ready.storeZephyr (hready : Ready cfg h) {l m : Nat}
    (hl : registered h loadedTable = some (.table l)) (hnone : h.fields l zephyrName = none)
    (hmodule : ZephyrModule cfg h m) : Kept cfg h (h.set l zephyrName (some (.table m))) := by
  have hreg := hready.wellRegistered
  have hroot := hreg.ne_registry hl
  have hopens : Opens (fun r k => r = l ∧ k = zephyrName) h
      (h.set l zephyrName (some (.table m))) := (Opens.refl hreg).set hroot (.inr ⟨rfl, rfl⟩) _
  have hsame (name : Bytes) : registered (h.set l zephyrName (some (.table m))) name =
      registered h name := congrFun (Heap.set_fields_ref hroot.symm _) name
  constructor
  · refine ⟨hopens.wellRegistered, hopens.isTable hready.channels, hopens.isTable hready.observers,
      hopens.isTable hready.loaded, ?_, fun l' v hl' hv => ?_⟩
    · obtain ⟨p, hp, hopen⟩ := hready.preloaded
      have hpl : p ≠ l := by
        rintro rfl
        exact absurd (hreg.unshared _ _ _ hp hl) (by decide)
      refine ⟨p, by rw [hsame, hp], fun k => ?_⟩
      rw [Heap.set_fields_ref hpl, hopen]
    · rw [hsame, hl] at hl'
      obtain rfl := Item.table.inj (Option.some.inj hl')
      rw [Heap.set_fields_self] at hv
      refine ⟨m, (Option.some.inj hv).symm, hmodule.changed hreg hopens ?_⟩
      rintro r' k hfield ⟨rfl, -⟩
      exact hmodule.not_field hreg hl k hfield
  · intro l' hl'
    rw [hsame, hl']
  · rintro r ⟨l', hl', hr⟩
    obtain rfl := Item.table.inj (Option.some.inj (hl'.symm.trans hl))
    rw [hnone] at hr
    contradiction

end Writes

section Rules

variable {cfg : LibConfig} {stack : List (Option (Item LibFunction))} {h₀ h : LibHeap}
  {fails : Nat → Bool} {calls : Nat}

theorem wp_getLoaded (hkept : Kept cfg h₀ h) {Q : Unit → TableState LibFunction → Prop}
    (hok : ∀ h' l n, Kept cfg h₀ h' → registered h' loadedTable = some (.table l) →
      Q ⟨⟩ ⟨some (.table l) :: stack, h', fails, n⟩) :
    wp (luaLGetsubtable loadedTable) Q (Fails (Kept cfg h₀)) ⟨stack, h, fails, calls⟩ := by
  have hready := hkept.ready
  have hreg := hready.wellRegistered
  refine wp_bind.mpr (wp_luaGetfield (r := registryRef) rfl hkept fun n => ?_)
  cases hentry : h.fields registryRef loadedTable with
  | some v =>
      obtain ⟨l, rfl⟩ := hready.loaded v hentry
      exact hok h l n hkept hentry
  | none =>
      have hmade : Kept cfg h₀ h.alloc :=
        hkept.trans (hready.kept (Opens.refl hreg (W := fun _ _ => False)).alloc fun _ _ _ => id)
      refine wp_bind.mpr (wp_bind.mpr (wp_luaNewtable hkept fun n => ?_))
      refine wp_bind.mpr (wp_luaPushvalue (slotAt_first _ _) ?_)
      refine wp_luaSetfield (r := registryRef) rfl hmade fun n => ?_
      exact hok _ h.next n (hkept.trans (hready.createLoaded hentry)) (Heap.set_fields_self _)

theorem wp_getPreload (hkept : Kept cfg h₀ h) {p : Nat}
    (hp : registered h preloadTable = some (.table p)) {Q : Unit → TableState LibFunction → Prop}
    (hok : ∀ n, Q ⟨⟩ ⟨some (.table p) :: stack, h, fails, n⟩) :
    wp (luaLGetsubtable preloadTable) Q (Fails (Kept cfg h₀)) ⟨stack, h, fails, calls⟩ := by
  refine wp_bind.mpr (wp_luaGetfield (r := registryRef) rfl hkept fun n => ?_)
  rw [show h.fields registryRef preloadTable = some (.table p) from hp]
  exact hok n

/-- What the function found for a name leaves, `_LOADED` being the table `l`. -/
structure Called (cfg : LibConfig) (h₀ h : LibHeap) (name : Bytes) (l : Nat)
    (v : Option (Item LibFunction)) (h' : LibHeap) : Prop where
  kept : Kept cfg h₀ h'
  loadedAt : registered h' loadedTable = some (.table l)
  unwritten : h'.fields l = h.fields l
  module : name = zephyrName → ∃ m, v = some (.table m) ∧ ZephyrModule cfg h' m

theorem wp_callPreloaded (hkept : Kept cfg h₀ h) {l : Nat}
    (hl : registered h loadedTable = some (.table l)) {name : Bytes} {f : LibFunction}
    (hf : f = .luaopenZephyr ↔ name = zephyrName)
    (hnone : name = zephyrName → h.fields l zephyrName = none)
    {Q : Nat → TableState LibFunction → Prop}
    (hok : ∀ (k : Nat) (stack' : List (Option (Item LibFunction))) h' n,
      Called cfg h₀ h name l ((stack'.take k).getLast?.getD none) h' →
      Q k ⟨stack', h', fails, n⟩) :
    wp (callPreloaded cfg f) Q (Fails (Kept cfg h₀)) ⟨stack, h, fails, calls⟩ := by
  have hready := hkept.ready
  have hreg := hready.wellRegistered
  have hother (hname : name ≠ zephyrName) {k : Nat} {stack' : List (Option (Item LibFunction))}
      {h' : LibHeap} (hopens : Opens (fun _ _ => False) h h') :
      Called cfg h₀ h name l ((stack'.take k).getLast?.getD none) h' := by
    have hkept' := hready.kept hopens fun _ _ _ => id
    exact ⟨hkept.trans hkept', hkept'.loadedAt l hl,
      hopens.changes.table (hreg.ref _ l hl).2 fun _ => id, fun h => absurd h hname⟩
  cases f with
  | luaopenZephyr =>
      have hnot (m : Nat) : ¬ Loaded h m := by
        rintro ⟨l', hl', hm⟩
        obtain rfl := Item.table.inj (Option.some.inj (hl'.symm.trans hl))
        rw [hnone (hf.mp rfl)] at hm
        contradiction
      have hthrough {h' : LibHeap} (hopens : Opens (ZephyrWrites h) h h') : Kept cfg h h' :=
        hready.kept hopens (hready.not_zephyrWrites hnot)
      refine (wp_luaopenZephyr cfg hreg hready.channels hready.observers
        fun h' m n hopens _ hmodule => ?_).mono (fun _ _ hQ => hQ)
          fun _ _ => Fails.mono fun _ hopens => hkept.trans (hthrough hopens)
      refine hok 1 _ h' n ⟨hkept.trans (hthrough hopens), (hthrough hopens).loadedAt l hl, ?_, ?_⟩
      · exact hopens.changes.table (hreg.ref _ l hl).2
          (not_zephyrWrites_table hreg loadedTable_ne hl)
      · exact fun _ => ⟨m, rfl, hmodule⟩
  | luaopenCore lib =>
      have hname : name ≠ zephyrName := mt hf.mpr LibFunction.noConfusion
      refine wp_bind.mpr ((wp_luaLNewlib (G := Opens (fun _ _ => False) h) _ (.refl hreg)
        (Opens.refl hreg).alloc (fun heap k v h₁ => ?_) fun n hfilled => ?_).mono
          (fun _ _ hQ => hQ) fun _ _ => Fails.mono fun _ hopens => ?_)
      · exact h₁.set hreg.ne_new.symm (.inl (Nat.le_refl _)) v
      · exact hok 1 _ _ n (hother hname hfilled)
      · exact hkept.trans (hready.kept hopens fun _ _ _ => id)
  | _ => exact hok 0 stack h calls (hother (mt hf.mpr LibFunction.noConfusion) (.refl hreg))

/-- A call may raise, but for "zephyr" only because memory runs out. -/
def RequireFails (cfg : LibConfig) (h₀ : LibHeap) (name : Bytes) (e : Exn)
    (t : TableState LibFunction) : Prop :=
  Kept cfg h₀ t.heap ∧ (name = zephyrName → e = .error .memory)

theorem Fails.require {name : Bytes} (e : Exn) (t : TableState LibFunction)
    (hfails : Fails (Kept cfg h₀) e t) : RequireFails cfg h₀ name e t :=
  ⟨hfails.2, fun _ => hfails.1⟩

theorem wp_luaCall (hkept : Kept cfg h₀ h) {l : Nat}
    (hl : registered h loadedTable = some (.table l)) {name : Bytes}
    {a b v : Option (Item LibFunction)} {rest : List (Option (Item LibFunction))}
    (hv : v = some (.function .luaopenZephyr) ↔ name = zephyrName)
    (hnone : name = zephyrName → h.fields l zephyrName = none)
    {Q : Unit → TableState LibFunction → Prop}
    (hok : ∀ w h' n, Called cfg h₀ h name l w h' → Q ⟨⟩ ⟨w :: rest, h', fails, n⟩) :
    wp (luaCall cfg 2) Q (RequireFails cfg h₀ name) ⟨a :: b :: v :: rest, h, fails, calls⟩ := by
  have hraises (e : Exn) (hnot : v ≠ some (.function .luaopenZephyr)) :
      RequireFails cfg h₀ name e ⟨a :: b :: v :: rest, h, fails, calls⟩ :=
    ⟨hkept, fun hname => absurd (hv.mpr hname) hnot⟩
  rw [luaCall, wp_bind, wp_get]
  match v with
  | some (.function f) =>
      have hf : f = .luaopenZephyr ↔ name = zephyrName := by
        rw [← hv, Option.some.injEq, Item.function.injEq]
      refine wp_bind.mpr (wp_bind.mpr ((wp_callPreloaded hkept hl hf hnone
        fun k stack' h' n hcalled => ?_).mono (fun _ _ hQ => hQ) Fails.require))
      exact hok _ h' n hcalled
  | none => exact hraises _ nofun
  | some (.boolean _) => exact hraises _ nofun
  | some (.string _) => exact hraises _ nofun
  | some (.table _) => exact hraises _ nofun

/-- What a call returns is what `_LOADED` has under the name. -/
structure Required (cfg : LibConfig) (h₀ : LibHeap) (name : Bytes) (k : Nat)
    (t : TableState LibFunction) : Prop where
  kept : Kept cfg h₀ t.heap
  result : ∃ l v, registered t.heap loadedTable = some (.table l) ∧
    t.heap.fields l name = some v ∧ (t.stack.take k).getLast? = some (some v)

theorem wp_luazRequire (hready : Ready cfg h) (arg : Bytes) {name : Bytes}
    (harg : CString.text arg = name) :
    wp (luazRequire cfg arg) (Required cfg h name) (RequireFails cfg h name)
      ⟨[some (.string arg)], h, fails, calls⟩ := by
  rw [luazRequire, harg]
  refine wp_bind.mpr ((wp_getLoaded (.refl hready) fun h₁ l n hkept hl => ?_).mono
    (fun _ _ hQ => hQ) Fails.require)
  have hready₁ := hkept.ready
  refine wp_bind.mpr ((wp_luaGetfield (r := l) rfl hkept fun n => ?_).mono (fun _ _ hQ => hQ)
    Fails.require)
  split
  · rename_i htrue
    obtain ⟨v, hv⟩ : ∃ v, h₁.fields l name = some v := by
      cases hv : h₁.fields l name with
      | none =>
          rw [hv] at htrue
          contradiction
      | some v => exact ⟨v, rfl⟩
    exact ⟨hkept, l, v, hl, hv, by rw [hv]; rfl⟩
  rename_i hfalse
  -- The library is not loaded yet if it is the one required.
  have hnone (hname : name = zephyrName) : h₁.fields l zephyrName = none := by
    rw [← hname]
    by_contra hsome
    obtain ⟨v, hv⟩ := Option.ne_none_iff_exists'.mp hsome
    obtain ⟨r, rfl, -⟩ := hready₁.complete l v hl (hname ▸ hv)
    rw [hv] at hfalse
    exact hfalse rfl
  obtain ⟨p, hp, hopen⟩ := hready₁.preloaded
  refine wp_bind.mpr (wp_bind.mpr ((wp_getPreload hkept hp fun n => ?_).mono (fun _ _ hQ => hQ)
    Fails.require))
  refine wp_bind.mpr ((wp_luaGetfield (r := p) rfl hkept fun n => ?_).mono (fun _ _ hQ => hQ)
    Fails.require)
  cases hf : h₁.fields p name with
  | none =>
      refine wp_bind.mpr ((wp_allocating hkept fun n => ?_).mono (fun _ _ hQ => hQ) Fails.require)
      refine ⟨hkept, fun hname => ?_⟩
      rw [(hopen name).mpr hname] at hf
      contradiction
  | some f =>
      have hzephyr : some f = some (.function .luaopenZephyr) ↔ name = zephyrName := by
        rw [← hf, hopen]
      refine wp_bind.mpr (wp_luaPushvalue rfl ?_)
      refine wp_bind.mpr ((wp_luaPushstring hkept fun n => ?_).mono (fun _ _ hQ => hQ)
        Fails.require)
      refine wp_bind.mpr (wp_luaCall hkept hl hzephyr hnone fun w h₂ n hcalled => ?_)
      have hstore (v : Item LibFunction) (hv : name = zephyrName → some v = w) :
          Kept cfg h (h₂.set l name (some v)) := by
        have hready₂ := hcalled.kept.ready
        by_cases hname : name = zephyrName
        · obtain ⟨m, rfl, hmodule⟩ := hcalled.module hname
          obtain rfl := Option.some.inj (hv hname)
          have hempty : h₂.fields l zephyrName = none := by rw [hcalled.unwritten, hnone hname]
          rw [hname]
          exact hcalled.kept.trans (hready₂.storeZephyr hcalled.loadedAt hempty hmodule)
        · exact hcalled.kept.trans (hready₂.storeOther hcalled.loadedAt hname _)
      have hreturn (v : Item LibFunction) (hkept : Kept cfg h (h₂.set l name (some v))) (n : Nat) :
          wp (do
            let _ ← luaGetfield (.slot 2) name
            luaPushstring (ascii ":preload:")
            return 2) (Required cfg h name) (RequireFails cfg h name)
            ⟨[some (.table p), some (.table l), some (.string arg)],
              h₂.set l name (some v), fails, n⟩ := by
        have hentry : (h₂.set l name (some v)).fields l name = some v := Heap.set_fields_self _
        have hloaded : registered (h₂.set l name (some v)) loadedTable = some (.table l) := by
          have hroot := hcalled.kept.ready.wellRegistered.ne_registry hcalled.loadedAt
          rw [registered, Heap.set_fields_ref hroot.symm]
          exact hcalled.loadedAt
        refine wp_bind.mpr ((wp_luaGetfield (r := l) rfl hkept fun n => ?_).mono
          (fun _ _ hQ => hQ) Fails.require)
        refine wp_bind.mpr ((wp_luaPushstring hkept fun n => ?_).mono (fun _ _ hQ => hQ)
          Fails.require)
        exact ⟨hkept, l, v, hloaded, hentry, by rw [hentry]; rfl⟩
      rw [wp_bind, wp_get]
      cases w with
      | some v =>
          refine wp_bind.mpr ((wp_luaSetfield (r := l) rfl hcalled.kept fun n => ?_).mono
            (fun _ _ hQ => hQ) Fails.require)
          exact hreturn v (hstore v fun _ => rfl) n
      | none =>
          refine wp_bind.mpr (wp_bind.mpr (wp_bind.mpr ((wp_luaSetfield (r := l) rfl
            hcalled.kept fun n => ?_).mono (fun _ _ hQ => hQ) Fails.require)))
          refine hreturn _ (hstore _ fun hname => ?_) n
          obtain ⟨m, hm, -⟩ := hcalled.module hname
          contradiction

end Rules

/-- The state `lua_newstate` makes. -/
def freshState (fails : Nat → Bool) : TableState LibFunction := ⟨[], ⟨fun _ _ => none, 2⟩, fails, 0⟩

/-- While the libraries are opened, the registry has these tables: `_LOADED`, with nothing in it
for the library, and `_PRELOAD` once it is there. -/
structure Opening (h : LibHeap) (preload : Option Nat) : Prop where
  wellRegistered : WellRegistered h
  entries : ∀ name v, registered h name = some v →
    (name = loadedTable ∧ ∃ l, v = .table l ∧ h.fields l zephyrName = none) ∨
      (name = preloadTable ∧ ∃ p, preload = some p ∧ v = .table p)

namespace Opening

variable {h : LibHeap} {preload : Option Nat}

/-- A field that is not the one for the library in `_LOADED`. -/
theorem set (hopening : Opening h preload) {r : Nat} (hr : r ≠ registryRef) {k : Bytes}
    (hk : registered h loadedTable = some (.table r) → k ≠ zephyrName)
    (v : Option (Item LibFunction)) : Opening (h.set r k v) preload where
  wellRegistered := hopening.wellRegistered.set hr k v
  entries name v' hv := by
    rw [registered, Heap.set_fields_ref hr.symm] at hv
    obtain ⟨rfl, l, rfl, hnone⟩ | hp := hopening.entries name v' hv
    · refine .inl ⟨rfl, l, rfl, ?_⟩
      by_cases hl : l = r
      · subst hl
        rw [Heap.set_fields_key (hk hv).symm, hnone]
      · rw [Heap.set_fields_ref hl, hnone]
    · exact .inr hp

theorem loaded_fields (hopening : Opening h preload) {l : Nat}
    (hl : registered h loadedTable = some (.table l)) : h.fields l zephyrName = none := by
  obtain ⟨-, l', heq, hnone⟩ | ⟨hname, -⟩ := hopening.entries _ _ hl
  · obtain rfl := Item.table.inj heq
    exact hnone
  · exact absurd hname (by decide)

theorem not_globals (hopening : Opening h preload) (name : Bytes) :
    registered h name ≠ some (.table globalsRef) := by
  intro hname
  exact absurd (hopening.wellRegistered.ref name _ hname).1 (by decide)

theorem setGlobal (hopening : Opening h preload) (k : Bytes) (v : Option (Item LibFunction)) :
    Opening (h.set globalsRef k v) preload :=
  hopening.set (by decide) (fun hglobals => absurd hglobals (hopening.not_globals _)) v

/-- An empty table becomes `_LOADED` or `_PRELOAD`. -/
theorem create (hopening : Opening h preload) {name : Bytes} {preload' : Option Nat}
    (hname : name = loadedTable ∨ (name = preloadTable ∧ preload' = some h.next))
    (hpreload : preload = preload' ∨ preload = none) :
    Opening (h.alloc.set registryRef name (some (.table h.next))) preload' := by
  have hreg := hopening.wellRegistered
  constructor
  · refine hreg.alloc.register ⟨hreg.next, Nat.lt_succ_self _⟩ (fun name' => ?_) name
    rw [registered, Heap.alloc_fields_ref hreg.ne_new]
    exact hreg.not_new (Nat.le_refl _) name'
  intro name' v hv
  by_cases hsame : name' = name
  · subst hsame
    obtain rfl := Option.some.inj ((Heap.set_fields_self _).symm.trans hv)
    obtain rfl | ⟨rfl, hnext⟩ := hname
    · refine .inl ⟨rfl, h.next, rfl, ?_⟩
      rw [Heap.set_fields_ref hreg.ne_new.symm, Heap.alloc_fields_next]
    · exact .inr ⟨rfl, h.next, hnext, rfl⟩
  · rw [registered, Heap.set_fields_key hsame, Heap.alloc_fields_ref hreg.ne_new] at hv
    obtain ⟨rfl, l, rfl, hnone⟩ | ⟨rfl, p, hp, rfl⟩ := hopening.entries name' v hv
    · have hl := hreg.ref _ l hv
      refine .inl ⟨rfl, l, rfl, ?_⟩
      rw [Heap.set_fields_ref (hreg.ne_registry hv), Heap.alloc_fields_ref (Nat.ne_of_lt hl.2),
        hnone]
    · obtain rfl | hnone := hpreload
      · exact .inr ⟨rfl, p, hp, rfl⟩
      · rw [hnone] at hp
        contradiction

end Opening

/-- `_PRELOAD` is there, with `luaopen_zephyr` under its name. -/
structure Preloaded (h : LibHeap) (p : Nat) : Prop where
  opening : Opening h (some p)
  entry : registered h preloadTable = some (.table p)
  zephyr : ∀ k, h.fields p k = some (.function .luaopenZephyr) ↔ k = zephyrName

theorem Preloaded.ready {h : LibHeap} {p : Nat} (hpreloaded : Preloaded h p) (cfg : LibConfig) :
    Ready cfg h := by
  have hopening := hpreloaded.opening
  have hno (name : Bytes) (hname : name ≠ loadedTable ∧ name ≠ preloadTable) : IsTable h name := by
    intro v hv
    obtain ⟨hl, -⟩ | ⟨hp, -⟩ := hopening.entries name v hv
    · exact absurd hl hname.1
    · exact absurd hp hname.2
  refine ⟨hopening.wellRegistered, hno _ (by decide), hno _ (by decide), fun v hv => ?_,
    ⟨p, hpreloaded.entry, hpreloaded.zephyr⟩, fun l v hl hv => ?_⟩
  · obtain ⟨-, l, rfl, -⟩ | ⟨hname, -⟩ := hopening.entries _ v hv
    · exact ⟨l, rfl⟩
    · exact absurd hname (by decide)
  · rw [hopening.loaded_fields hl] at hv
    contradiction

/-- One more library. -/
theorem Preloaded.set {h : LibHeap} {p : Nat} (hpreloaded : Preloaded h p) {name : Bytes}
    (hname : name ≠ zephyrName) {f : LibFunction} (hf : f ≠ .luaopenZephyr) :
    Preloaded (h.set p name (some (.function f))) p := by
  have hroot := hpreloaded.opening.wellRegistered.ne_registry hpreloaded.entry
  refine ⟨hpreloaded.opening.set hroot (fun hl => ?_) _, ?_, fun k => ?_⟩
  · exact absurd (hpreloaded.opening.wellRegistered.unshared _ _ _ hl hpreloaded.entry) (by decide)
  · rw [registered, Heap.set_fields_ref hroot.symm]
    exact hpreloaded.entry
  · by_cases hk : k = name
    · subst hk
      rw [Heap.set_fields_self, Option.some.injEq, Item.function.injEq]
      exact ⟨fun h => absurd h hf, fun h => absurd h hname⟩
    · rw [Heap.set_fields_key hk, hpreloaded.zephyr]

section Rules

variable {cfg : LibConfig} {stack : List (Option (Item LibFunction))} {h : LibHeap}
  {fails : Nat → Bool} {calls : Nat}

/-- Memory ran out. -/
abbrev OutOfMemory : Exn → TableState LibFunction → Prop := Fails fun _ => True

theorem wp_openLoaded {preload : Option Nat} (hopening : Opening h preload)
    {Q : Unit → TableState LibFunction → Prop}
    (hok : ∀ h' l n, Opening h' preload → registered h' loadedTable = some (.table l) →
      Q ⟨⟩ ⟨some (.table l) :: stack, h', fails, n⟩) :
    wp (luaLGetsubtable loadedTable) Q OutOfMemory ⟨stack, h, fails, calls⟩ := by
  refine wp_bind.mpr (wp_luaGetfield (r := registryRef) rfl trivial fun n => ?_)
  cases hentry : h.fields registryRef loadedTable with
  | some v =>
      obtain ⟨-, l, rfl, -⟩ | ⟨hname, -⟩ := hopening.entries _ v hentry
      · exact hok h l n hopening hentry
      · exact absurd hname (by decide)
  | none =>
      refine wp_bind.mpr (wp_bind.mpr (wp_luaNewtable trivial fun n => ?_))
      refine wp_bind.mpr (wp_luaPushvalue (slotAt_first _ _) ?_)
      refine wp_luaSetfield (r := registryRef) rfl trivial fun n => ?_
      exact hok _ h.next n (hopening.create (.inl rfl) (.inl rfl)) (Heap.set_fields_self _)

theorem wp_requirefBase {preload : Option Nat} (hopening : Opening h preload)
    {Q : Unit → TableState LibFunction → Prop}
    (hok : ∀ h' n, Opening h' preload → Q ⟨⟩ ⟨stack, h', fails, n⟩) :
    wp (requirefBase cfg) Q OutOfMemory ⟨stack, h, fails, calls⟩ := by
  refine wp_bind.mpr (wp_openLoaded hopening fun h₁ l n hopening₁ hl => ?_)
  refine wp_bind.mpr (wp_bind.mpr ((wp_luaLSetfuncs (G := fun heap => Opening heap preload ∧
    registered heap loadedTable = some (.table l)) (fun heap k v hheap => ⟨?_, ?_⟩)
    ⟨hopening₁, hl⟩ _ fun n hfilled => ?_).mono (fun _ _ hQ => hQ) fun _ _ =>
      Fails.mono fun _ _ => trivial))
  · exact hheap.1.setGlobal k v
  · rw [registered, Heap.set_fields_ref (by decide)]
    exact hheap.2
  · obtain ⟨hopening₂, hl₂⟩ := hfilled
    refine wp_bind.mpr (wp_luaPushvalue (slotAt_first _ _) ?_)
    refine wp_bind.mpr (wp_luaSetfield (refAt_second _ _ _) trivial fun n => ?_)
    refine wp_bind.mpr (wp_luaPushstring trivial fun n => ?_)
    refine wp_bind.mpr (wp_luaSetfield (refAt_second _ _ _) trivial fun n => ?_)
    refine wp_bind.mpr (wp_luaSetfield (refAt_second _ _ _) trivial fun n => ?_)
    have hroot := hopening₂.wellRegistered.ne_registry hl₂
    refine hok _ n (((hopening₂.setGlobal _ _).setGlobal _ _).set hroot (fun _ => by decide) _)

theorem wp_preload {p : Nat} (hpreloaded : Preloaded h p) (c : Bool) {lib : Bytes}
    (hlib : lib ≠ zephyrName) {Q : Unit → TableState LibFunction → Prop}
    (hok : ∀ h' n, Preloaded h' p → Q ⟨⟩ ⟨some (.table p) :: stack, h', fails, n⟩) :
    wp (whenDefined c (preload (.luaopenCore lib) lib)) Q OutOfMemory
      ⟨some (.table p) :: stack, h, fails, calls⟩ := by
  cases c with
  | false => exact hok h calls hpreloaded
  | true =>
      refine wp_bind.mpr (wp_luaSetfield (refAt_second _ _ _) trivial fun n => ?_)
      exact hok _ n (hpreloaded.set hlib LibFunction.noConfusion)

/-- When `luaz_openlibs` returns, the state is ready. -/
theorem wp_luazOpenlibs (cfg : LibConfig) (fails : Nat → Bool) :
    wp (luazOpenlibs cfg) (fun _ t => Ready cfg t.heap) OutOfMemory (freshState fails) := by
  have hfresh : Opening (freshState fails).heap none := by
    refine ⟨⟨Nat.le_refl _, ?_, ?_⟩, ?_⟩ <;> intros <;> contradiction
  refine wp_bind.mpr (wp_bind.mpr (wp_luaSetglobal trivial fun n => ?_))
  have hopening := hfresh.setGlobal (ascii "require") (some (.function .luazRequire))
  have hrest {h : LibHeap} {n : Nat} (hopening : Opening h none) :
      wp (do
        luaLGetsubtable preloadTable
        preload .luaopenZephyr (ascii "zephyr")
        whenDefined cfg.libs.string (preload (.luaopenCore (ascii "string")) (ascii "string"))
        whenDefined cfg.libs.table (preload (.luaopenCore (ascii "table")) (ascii "table"))
        whenDefined cfg.libs.math (preload (.luaopenCore (ascii "math")) (ascii "math"))
        whenDefined cfg.libs.coroutine
          (preload (.luaopenCore (ascii "coroutine")) (ascii "coroutine"))
        whenDefined cfg.libs.utf8 (preload (.luaopenCore (ascii "utf8")) (ascii "utf8"))
        whenDefined cfg.libs.debug (preload (.luaopenCore (ascii "debug")) (ascii "debug"))
        luaPop 1) (fun _ t => Ready cfg t.heap) OutOfMemory ⟨[], h, fails, n⟩ := by
    have hnone : h.fields registryRef preloadTable = none := by
      by_contra hsome
      obtain ⟨v, hv⟩ := Option.ne_none_iff_exists'.mp hsome
      obtain ⟨hname, -⟩ | ⟨-, p, hp, -⟩ := hopening.entries _ v hv
      · exact absurd hname (by decide)
      · contradiction
    refine wp_bind.mpr (wp_bind.mpr (wp_luaGetfield (r := registryRef) rfl trivial fun n => ?_))
    rw [hnone]
    refine wp_bind.mpr (wp_bind.mpr (wp_luaNewtable trivial fun n => ?_))
    refine wp_bind.mpr (wp_luaPushvalue (slotAt_first _ _) ?_)
    refine wp_luaSetfield (r := registryRef) rfl trivial fun n => ?_
    refine wp_bind.mpr (wp_bind.mpr (wp_luaSetfield (refAt_second _ _ _) trivial fun n => ?_))
    have hreg := hopening.wellRegistered
    have hopening' := hopening.create (.inr ⟨rfl, rfl⟩) (.inr rfl)
    have hentry : registered (h.alloc.set registryRef preloadTable (some (.table h.next)))
        preloadTable = some (.table h.next) := Heap.set_fields_self _
    have hpreloaded : Preloaded ((h.alloc.set registryRef preloadTable (some (.table
        h.next))).set h.next zephyrName (some (.function .luaopenZephyr))) h.next := by
      refine ⟨hopening'.set hreg.ne_new.symm (fun hl => ?_) _, ?_, fun k => ?_⟩
      · exact absurd (hopening'.wellRegistered.unshared _ _ _ hl hentry) (by decide)
      · rw [registered, Heap.set_fields_ref hreg.ne_new]
        exact hentry
      · by_cases hk : k = zephyrName
        · subst hk
          rw [Heap.set_fields_self]
          exact ⟨fun _ => rfl, fun _ => rfl⟩
        · rw [Heap.set_fields_key hk, Heap.set_fields_ref hreg.ne_new.symm,
            Heap.alloc_fields_next]
          exact iff_of_false (by simp) hk
    refine wp_bind.mpr (wp_preload hpreloaded _ (by decide) fun h₁ n h₁p => ?_)
    refine wp_bind.mpr (wp_preload h₁p _ (by decide) fun h₂ n h₂p => ?_)
    refine wp_bind.mpr (wp_preload h₂p _ (by decide) fun h₃ n h₃p => ?_)
    refine wp_bind.mpr (wp_preload h₃p _ (by decide) fun h₄ n h₄p => ?_)
    refine wp_bind.mpr (wp_preload h₄p _ (by decide) fun h₅ n h₅p => ?_)
    refine wp_bind.mpr (wp_preload h₅p _ (by decide) fun h₆ n h₆p => ?_)
    exact h₆p.ready cfg
  cases hbase : cfg.libs.base with
  | false => exact hrest hopening
  | true => exact wp_bind.mpr (wp_requirefBase hopening fun h' n hopening' => hrest hopening')

end Rules

/-- It requires a library, or does something else to the tables. -/
inductive ScriptAct where
  | require (arg : Bytes)
  | other (change : LibHeap → LibHeap)

inductive ScriptAnswer where
  | required (v : Option (Item LibFunction))
  | raised (e : Exn)
  | changed
  deriving DecidableEq

/-- One call of `require` gives one value; the second is dropped. -/
def scriptStep (cfg : LibConfig) (s : TableState LibFunction) :
    ScriptAct → ScriptAnswer × TableState LibFunction
  | .require arg =>
      match luazRequire cfg arg { s with stack := [some (.string arg)] } with
      | .ok n t => (.required ((t.stack.take n).getLast?.getD none), t)
      | .error e t => (.raised e, t)
  | .other change => (.changed, { s with heap := change s.heap })

/-- A script writes to any field that is not guarded, without calling a metamethod. The entries of
the registry are not at its hand. -/
def Unguarded (s : TableState LibFunction) : ScriptAct → Prop
  | .require _ => True
  | .other change => Opens (fun r k => ¬ Guarded s.heap r k) s.heap (change s.heap)

/-- Memory ran out, or the answer is the library that is loaded. -/
def GivesLibrary (h : LibHeap) (answer : ScriptAnswer) : Prop :=
  answer = .raised (.error .memory) ∨ ∃ m, answer = .required (some (.table m)) ∧ Loaded h m

theorem GivesLibrary.kept {cfg : LibConfig} {h h' : LibHeap} {answer : ScriptAnswer}
    (hgives : GivesLibrary h answer) (hkept : Kept cfg h h') : GivesLibrary h' answer :=
  hgives.imp_right fun ⟨m, hanswer, hloaded⟩ => ⟨m, hanswer, hkept.same m hloaded⟩

section Scripts

variable {cfg : LibConfig} {s : TableState LibFunction}

theorem scriptStep_require (hready : Ready cfg s.heap) (arg : Bytes) :
    Kept cfg s.heap (scriptStep cfg s (.require arg)).2.heap ∧
      (CString.text arg = zephyrName → GivesLibrary (scriptStep cfg s (.require arg)).2.heap
        (scriptStep cfg s (.require arg)).1) := by
  have hrequire : wp (luazRequire cfg arg) _ _ { s with stack := [some (.string arg)] } :=
    wp_luazRequire hready arg rfl
  rw [wp] at hrequire
  rw [scriptStep]
  split <;> rename_i heq
  · rw [heq] at hrequire
    obtain ⟨hkept, l, v, hl, hv, hresult⟩ := hrequire
    refine ⟨hkept, fun hname => .inr ?_⟩
    obtain ⟨m, rfl, -⟩ := hkept.ready.complete l v hl (hname ▸ hv)
    exact ⟨m, by rw [hresult]; rfl, l, hl, hname ▸ hv⟩
  · rw [heq] at hrequire
    obtain ⟨hkept, hmemory⟩ := hrequire
    exact ⟨hkept, fun hname => .inl (by rw [hmemory hname])⟩

theorem scriptStep_kept (hready : Ready cfg s.heap) {a : ScriptAct} (ha : Unguarded s a) :
    Kept cfg s.heap (scriptStep cfg s a).2.heap := by
  cases a with
  | require arg => exact (scriptStep_require hready arg).1
  | other change => exact hready.kept ha fun _ _ hguarded hnot => hnot hguarded

/-- What holds between two calls. -/
structure ScriptInv (cfg : LibConfig) (history : List (ScriptAct × ScriptAnswer))
    (s : TableState LibFunction) : Prop where
  ready : Ready cfg s.heap
  gives : ∀ answer, (.require zephyrName, answer) ∈ history → GivesLibrary s.heap answer

theorem scriptStep_inv {history : List (ScriptAct × ScriptAnswer)}
    (hinv : ScriptInv cfg history s) {a : ScriptAct} (ha : Unguarded s a) :
    ScriptInv cfg (history ++ [(a, (scriptStep cfg s a).1)]) (scriptStep cfg s a).2 := by
  have hkept := scriptStep_kept hinv.ready ha
  refine ⟨hkept.ready, fun answer hanswer => ?_⟩
  obtain hold | hnew := List.mem_append.mp hanswer
  · exact (hinv.gives answer hold).kept hkept
  · obtain ⟨rfl, rfl⟩ := Prod.mk.inj (List.mem_singleton.mp hnew)
    exact (scriptStep_require hinv.ready zephyrName).2 rfl

/-- After `luaz_openlibs`, whatever a script writes to the fields that are not guarded and whichever
libraries it requires, with memory running out at any of the calls: `require("zephyr")` either runs
out of memory, too, or returns the library, complete, and the same table each time. -/
theorem scripts_require_zephyr {fails : Nat → Bool}
    (hopen : luazOpenlibs cfg (freshState fails) = .ok ⟨⟩ s) {actions : List ScriptAct}
    (hall : AllSteps (scriptStep cfg) Unguarded s actions) :
    (∀ answer, (.require zephyrName, answer) ∈ (run (scriptStep cfg) s actions).1 →
        answer = .raised (.error .memory)) ∨
      ∃ m, ZephyrModule cfg (run (scriptStep cfg) s actions).2.heap m ∧
        ∀ answer, (.require zephyrName, answer) ∈ (run (scriptStep cfg) s actions).1 →
          answer = .raised (.error .memory) ∨ answer = .required (some (.table m)) := by
  have hready : Ready cfg s.heap := by
    have hopened := wp_luazOpenlibs cfg fails
    rwa [wp, hopen] at hopened
  have hinv : ScriptInv cfg (run (scriptStep cfg) s actions).1
      (run (scriptStep cfg) s actions).2 := by
    have hstart : ScriptInv cfg [] s := ⟨hready, fun _ hnone => by simp at hnone⟩
    have hstep (history : List (ScriptAct × ScriptAnswer)) (s : TableState LibFunction)
        (a : ScriptAct) (hinv : ScriptInv cfg history s) (ha : Unguarded s a) :
        ScriptInv cfg (history ++ [(a, (scriptStep cfg s a).1)]) (scriptStep cfg s a).2 :=
      scriptStep_inv hinv ha
    exact run_invariant hstep hstart hall
  by_cases hloaded : ∃ m, Loaded (run (scriptStep cfg) s actions).2.heap m
  · obtain ⟨m, l, hl, hm⟩ := hloaded
    obtain ⟨m', heq, hmodule⟩ := hinv.ready.complete l _ hl hm
    obtain rfl := Item.table.inj heq
    refine .inr ⟨m, hmodule, fun answer hanswer => ?_⟩
    refine (hinv.gives answer hanswer).imp_right ?_
    rintro ⟨m', rfl, l', hl', hm'⟩
    obtain rfl := Item.table.inj (Option.some.inj (hl'.symm.trans hl))
    rw [Item.table.inj (Option.some.inj (hm'.symm.trans hm))]
  · refine .inl fun answer hanswer => (hinv.gives answer hanswer).resolve_right ?_
    rintro ⟨m, -, hm⟩
    exact hloaded ⟨m, hm⟩

def everyLib : LibConfig :=
  ⟨⟨true, true, true, true, true, true, true⟩, true, true, fun _ => [ascii "print"]⟩

/-- One call fails, in the middle of `luaopen_zephyr`. -/
def retryStart : TableState LibFunction :=
  match luazOpenlibs everyLib (freshState fun n => n == 40) with
  | .ok _ t => t
  | .error _ t => t

def retryActions : List ScriptAct :=
  [.require zephyrName, .other Heap.alloc, .require zephyrName, .require zephyrName]

theorem retryStart_opened :
    luazOpenlibs everyLib (freshState fun n => n == 40) = .ok ⟨⟩ retryStart := by
  have hreturns : (match luazOpenlibs everyLib (freshState fun n => n == 40) with
      | .ok _ _ => true
      | .error _ _ => false) = true := by decide +kernel
  rw [retryStart]
  cases hrun : luazOpenlibs everyLib (freshState fun n => n == 40) with
  | ok _ t => rfl
  | error e t =>
      rw [hrun] at hreturns
      contradiction

theorem scripts_require_zephyr_retried :
    ∃ m, ZephyrModule everyLib (run (scriptStep everyLib) retryStart retryActions).2.heap m ∧
      (run (scriptStep everyLib) retryStart retryActions).1.map Prod.snd =
        [.raised (.error .memory), .changed, .required (some (.table m)),
          .required (some (.table m))] := by
  have hready : Ready everyLib retryStart.heap := by
    have hopened := wp_luazOpenlibs everyLib fun n => n == 40
    rwa [wp, retryStart_opened] at hopened
  have hreg := (scriptStep_require hready zephyrName).1.ready.wellRegistered
  have hall : AllSteps (scriptStep everyLib) Unguarded retryStart retryActions :=
    ⟨trivial, (Opens.refl hreg).alloc, trivial, trivial, trivial⟩
  have hanswers : (run (scriptStep everyLib) retryStart retryActions).1.map Prod.snd =
      [.raised (.error .memory), .changed, .required (some (.table 7)),
        .required (some (.table 7))] := by decide +kernel
  have hthird : (scriptStep everyLib (run (scriptStep everyLib) retryStart
      (retryActions.take 2)).2 (.require zephyrName)).1 = .required (some (.table 7)) := by
    decide +kernel
  have hmem := run_entry (scriptStep everyLib) retryStart (retryActions.take 2)
    (.require zephyrName) [.require zephyrName]
  have hactions : retryActions.take 2 ++ .require zephyrName :: [.require zephyrName] =
      retryActions := rfl
  rw [hthird, hactions] at hmem
  obtain hnever | ⟨m, hmodule, hgives⟩ := scripts_require_zephyr retryStart_opened hall
  · exact ScriptAnswer.noConfusion (hnever _ hmem)
  · obtain hmemory | hm := hgives _ hmem
    · exact ScriptAnswer.noConfusion hmemory
    · obtain rfl := Item.table.inj (Option.some.inj (ScriptAnswer.required.inj hm))
      exact ⟨7, hmodule, hanswers⟩

end Scripts

end LuaZephyr.Libraries
