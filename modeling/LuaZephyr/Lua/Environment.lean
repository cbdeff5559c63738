import LuaZephyr.Lua.Libraries

/-!
# What scripts find in the libraries

The registry holds each of its tables under one name. Opening a library writes to the tables
it makes, to its metatables and to the globals it replaces, and to nothing else; so what
`require` has put into `_LOADED` stays complete.

The scripts' own writes are not followed here but in `Lua.Requires`; this module is about what
the libraries' C code does to the tables. A table is reached only by the references it was
stored under, and memory may run out at any call.
-/

namespace LuaZephyr.Libraries

open Outcome SharedTables Runs

/-- The value of the registry under a name. -/
def registered (h : LibHeap) (name : Bytes) : Option (Item LibFunction) :=
  h.fields registryRef name

structure WellRegistered (h : LibHeap) : Prop where
  next : 2 ≤ h.next
  ref : ∀ name r, registered h name = some (.table r) → 2 ≤ r ∧ r < h.next
  unshared : ∀ name name' r, registered h name = some (.table r) →
    registered h name' = some (.table r) → name = name'

namespace WellRegistered

variable {h : LibHeap} {name : Bytes} {r : Nat}

theorem ne_registry (hreg : WellRegistered h) (hname : registered h name = some (.table r)) :
    r ≠ registryRef := by
  have hr := (hreg.ref name r hname).1
  rw [registryRef]
  omega

theorem registry_lt (hreg : WellRegistered h) : registryRef < h.next :=
  Nat.lt_of_lt_of_le Nat.two_pos hreg.next

theorem globals_lt (hreg : WellRegistered h) : globalsRef < h.next := hreg.next

theorem ne_new (hreg : WellRegistered h) : registryRef ≠ h.next := Nat.ne_of_lt hreg.registry_lt

theorem not_new (hreg : WellRegistered h) (hr : h.next ≤ r) (name : Bytes) :
    registered h name ≠ some (.table r) := by
  intro hname
  have hold := (hreg.ref name r hname).2
  omega

theorem alloc (hreg : WellRegistered h) : WellRegistered h.alloc := by
  have hsame (name : Bytes) : registered h.alloc name = registered h name :=
    congrFun (Heap.alloc_fields_ref hreg.ne_new) name
  refine ⟨Nat.le_succ_of_le hreg.next, fun name r hr => ?_, fun name name' r hr hr' => ?_⟩
  · rw [hsame] at hr
    obtain ⟨hold, hlt⟩ := hreg.ref name r hr
    exact ⟨hold, Nat.lt_succ_of_lt hlt⟩
  · rw [hsame] at hr hr'
    exact hreg.unshared name name' r hr hr'

/-- A field of another table. -/
theorem set (hreg : WellRegistered h) (hr : r ≠ registryRef) (k : Bytes)
    (v : Option (Item LibFunction)) : WellRegistered (h.set r k v) := by
  have hsame (name : Bytes) : registered (h.set r k v) name = registered h name :=
    congrFun (Heap.set_fields_ref hr.symm v) name
  refine ⟨hreg.next, fun name r' hr' => ?_, fun name name' r' hname hname' => ?_⟩
  · rw [hsame] at hr'
    exact hreg.ref name r' hr'
  · rw [hsame] at hname hname'
    exact hreg.unshared name name' r' hname hname'

/-- A table that is not in the registry yet. -/
theorem register (hreg : WellRegistered h) (hr : 2 ≤ r ∧ r < h.next)
    (hnew : ∀ name, registered h name ≠ some (.table r)) (name : Bytes) :
    WellRegistered (h.set registryRef name (some (.table r))) := by
  have hself : registered (h.set registryRef name (some (.table r))) name = some (.table r) :=
    Heap.set_fields_self _
  have hother {name' : Bytes} (hne : name' ≠ name) :
      registered (h.set registryRef name (some (.table r))) name' = registered h name' :=
    Heap.set_fields_key hne _
  refine ⟨hreg.next, fun name' r' hr' => ?_, fun name' name'' r' hname' hname'' => ?_⟩
  · by_cases hname : name' = name
    · subst hname
      obtain rfl := Item.table.inj (Option.some.inj (hself.symm.trans hr'))
      exact hr
    · rw [hother hname] at hr'
      exact hreg.ref name' r' hr'
  · by_cases hname : name' = name
    · by_cases hname₂ : name'' = name
      · rw [hname, hname₂]
      · subst hname
        obtain rfl := Item.table.inj (Option.some.inj (hself.symm.trans hname'))
        rw [hother hname₂] at hname''
        exact absurd hname'' (hnew name'')
    · rw [hother hname] at hname'
      by_cases hname₂ : name'' = name
      · subst hname₂
        obtain rfl := Item.table.inj (Option.some.inj (hself.symm.trans hname''))
        exact absurd hname' (hnew name')
      · rw [hother hname₂] at hname''
        exact hreg.unshared name' name'' r' hname' hname''

end WellRegistered

/-- Outside of `W` the old tables are as they were, and new values of the registry are new
tables. -/
structure Opens (W : Nat → Bytes → Prop) (h h' : LibHeap) : Prop where
  changes : Heap.Changes W h h'
  wellRegistered : WellRegistered h'
  entries : ∀ name v, registered h' name = some v →
    registered h name = some v ∨ ∃ r, v = .table r ∧ h.next ≤ r

namespace Opens

variable {W W' : Nat → Bytes → Prop} {h h' h'' : LibHeap} {r : Nat}

theorem refl (hreg : WellRegistered h) : Opens W h h :=
  ⟨.refl, hreg, fun _ _ hv => .inl hv⟩

theorem mono (hopens : Opens W h h') (hW : ∀ r k, r < h.next → W r k → W' r k) :
    Opens W' h h' := ⟨hopens.changes.mono hW, hopens.wellRegistered, hopens.entries⟩

theorem trans (first : Opens W h h') (second : Opens W' h' h'')
    (hW : ∀ r k, r < h.next → W' r k → W r k) : Opens W h h'' where
  changes := first.changes.trans second.changes hW
  wellRegistered := second.wellRegistered
  entries name v hv := by
    obtain hold | ⟨r, rfl, hr⟩ := second.entries name v hv
    · exact first.entries name v hold
    · exact .inr ⟨r, rfl, Nat.le_trans first.changes.next hr⟩

theorem alloc (hopens : Opens W h h') : Opens W h h'.alloc where
  changes := hopens.changes.alloc
  wellRegistered := hopens.wellRegistered.alloc
  entries name v hv := by
    rw [registered, Heap.alloc_fields_ref hopens.wellRegistered.ne_new] at hv
    exact hopens.entries name v hv

theorem set (hopens : Opens W h h') (hr : r ≠ registryRef) {k : Bytes} (hW : h.next ≤ r ∨ W r k)
    (v : Option (Item LibFunction)) : Opens W h (h'.set r k v) where
  changes := hopens.changes.set hW v
  wellRegistered := hopens.wellRegistered.set hr k v
  entries name v' hv := by
    rw [registered, Heap.set_fields_ref hr.symm] at hv
    exact hopens.entries name v' hv

/-- A new table is registered under a name that may change. -/
theorem register (hopens : Opens W h h') (hreg : WellRegistered h) {name : Bytes}
    (hW : W registryRef name) (hr : h.next ≤ r ∧ r < h'.next)
    (hnew : ∀ name, registered h' name ≠ some (.table r)) :
    Opens W h (h'.set registryRef name (some (.table r))) where
  changes := hopens.changes.set (.inr hW) _
  wellRegistered :=
    hopens.wellRegistered.register ⟨Nat.le_trans hreg.next hr.1, hr.2⟩ hnew name
  entries name' v hv := by
    by_cases hname : name' = name
    · subst hname
      obtain rfl := Option.some.inj ((Heap.set_fields_self _).symm.trans hv)
      exact .inr ⟨r, rfl, hr.1⟩
    · rw [registered, Heap.set_fields_key hname] at hv
      exact hopens.entries name' v hv

end Opens

/-- A table that is not in the registry does not get there. -/
theorem Opens.not_registered {W : Nat → Bytes → Prop} {h h' : LibHeap} (hopens : Opens W h h')
    {r : Nat} (hr : r < h.next) (hnot : ∀ name, registered h name ≠ some (.table r))
    (name : Bytes) : registered h' name ≠ some (.table r) := by
  intro hname
  obtain hold | ⟨r', heq, hnew⟩ := hopens.entries name _ hname
  · exact hnot name hold
  · obtain rfl := Item.table.inj heq
    omega

/-- A table of a library: it is in use, and not in the registry. -/
structure Private (h : LibHeap) (r : Nat) : Prop where
  made : 2 ≤ r ∧ r < h.next
  unregistered : ∀ name, registered h name ≠ some (.table r)

namespace Private

variable {W : Nat → Bytes → Prop} {h h' : LibHeap} {r : Nat}

theorem changed (hprivate : Private h r) (hopens : Opens W h h') : Private h' r where
  made := ⟨hprivate.made.1, Nat.lt_of_lt_of_le hprivate.made.2 hopens.changes.next⟩
  unregistered := hopens.not_registered hprivate.made.2 hprivate.unregistered

theorem ne_registry (hprivate : Private h r) : r ≠ registryRef :=
  Nat.ne_of_gt (Nat.lt_of_lt_of_le Nat.two_pos hprivate.made.1)

theorem ne_globals (hprivate : Private h r) : r ≠ globalsRef := Nat.ne_of_gt hprivate.made.1

end Private

/-- The registry has a table under this name, if anything. -/
def IsTable (h : LibHeap) (name : Bytes) : Prop :=
  ∀ v, registered h name = some v → ∃ r, v = .table r

theorem Opens.isTable {W : Nat → Bytes → Prop} {h h' : LibHeap} (hopens : Opens W h h')
    {name : Bytes} (htable : IsTable h name) : IsTable h' name := by
  intro v hv
  obtain hold | ⟨r, hr, -⟩ := hopens.entries name v hv
  · exact htable v hold
  · exact ⟨r, hr⟩

/-- The entry of the registry, and the table if there is one. -/
def MetaWrites (h : LibHeap) (name : Bytes) (r : Nat) (k : Bytes) : Prop :=
  (r = registryRef ∧ k = name) ∨ registered h name = some (.table r)

/-- Indexing a value with this metatable finds the methods. -/
def MetaReady (h : LibHeap) (name : Bytes) (methods : List (Bytes × LibFunction)) : Prop :=
  ∃ c, registered h name = some (.table c) ∧ h.fields c (ascii "__index") = some (.table c) ∧
    ∀ k f, (k, f) ∈ methods → h.fields c k = some (.function f)

theorem MetaReady.changed {W : Nat → Bytes → Prop} {h h' : LibHeap} {name : Bytes}
    {methods : List (Bytes × LibFunction)} (hready : MetaReady h name methods)
    (hreg : WellRegistered h) (hopens : Opens W h h') (hentry : ¬ W registryRef name)
    (htable : ∀ c, registered h name = some (.table c) → ∀ k, ¬ W c k) :
    MetaReady h' name methods := by
  obtain ⟨c, hname, hindex, hmethods⟩ := hready
  have hchanges := hopens.changes
  have hc := hchanges.table (hreg.ref name c hname).2 (htable c hname)
  refine ⟨c, ?_, by rw [hc, hindex], fun k f hf => by rw [hc, hmethods k f hf]⟩
  rw [registered, hchanges.fields registryRef name hreg.registry_lt hentry]
  exact hname

/-- The table has these functions and no other fields. -/
def Holds (h : LibHeap) (r : Nat) (l : List (Bytes × LibFunction)) : Prop :=
  ∀ k, h.fields r k = (functions l).lookup k

section Rules

variable {stack : List (Option (Item LibFunction))} {h : LibHeap} {fails : Nat → Bool}
  {calls : Nat}

/-- The metatable is the one that was there, or a new one. -/
theorem wp_luaLNewmetatable (hreg : WellRegistered h) {name : Bytes} (htable : IsTable h name)
    {Q : Bool → TableState LibFunction → Prop}
    (hok : ∀ b c h' n, Opens (MetaWrites h name) h h' → registered h' name = some (.table c) →
      h.next ≤ c ∨ registered h name = some (.table c) →
      Q b ⟨some (.table c) :: stack, h', fails, n⟩) :
    wp (luaLNewmetatable name) Q (Fails (Opens (MetaWrites h name) h))
      ⟨stack, h, fails, calls⟩ := by
  have hstart : Opens (MetaWrites h name) h h := .refl hreg
  refine wp_bind.mpr (wp_luaGetfield (r := registryRef) rfl hstart fun n => ?_)
  cases hname : h.fields registryRef name with
  | some v =>
      obtain ⟨c, rfl⟩ := htable v hname
      exact hok false c h n hstart hname (.inr hname)
  | none =>
      have hmade : Opens (MetaWrites h name) h h.alloc := hstart.alloc
      have hnamed := hmade.set hreg.ne_new.symm (.inl (Nat.le_refl _)) (k := ascii "__name")
        (some (.string name))
      have hsame (name' : Bytes) : registered (h.alloc.set h.next (ascii "__name")
          (some (.string name))) name' = registered h name' := by
        rw [registered, Heap.set_fields_ref hreg.ne_new, Heap.alloc_fields_ref hreg.ne_new,
          registered]
      refine wp_bind.mpr (wp_bind.mpr (wp_luaNewtable hstart fun n => ?_))
      refine wp_bind.mpr (wp_luaPushstring hmade fun n => ?_)
      refine wp_bind.mpr (wp_luaSetfield (refAt_second _ _ _) hmade fun n => ?_)
      refine wp_bind.mpr (wp_luaPushvalue (slotAt_first _ _) ?_)
      refine wp_bind.mpr (wp_luaSetfield (r := registryRef) rfl hnamed fun n => ?_)
      refine hok true h.next _ n (hnamed.register hreg (.inl ⟨rfl, rfl⟩) ?_ ?_)
        (Heap.set_fields_self _) (.inl (Nat.le_refl _))
      · exact ⟨Nat.le_refl _, Nat.lt_succ_self _⟩
      · intro name'
        rw [hsame]
        exact hreg.not_new (Nat.le_refl _) name'

theorem wp_openMetatable (hreg : WellRegistered h) {name : Bytes} (htable : IsTable h name)
    {methods : List (Bytes × LibFunction)} (hkeys : (methods.map Prod.fst).Nodup)
    (hindex : ascii "__index" ∉ methods.map Prod.fst)
    {Q : Unit → TableState LibFunction → Prop}
    (hok : ∀ h' n, Opens (MetaWrites h name) h h' → MetaReady h' name methods →
      Q ⟨⟩ ⟨stack, h', fails, n⟩) :
    wp (openMetatable name methods) Q (Fails (Opens (MetaWrites h name) h))
      ⟨stack, h, fails, calls⟩ := by
  refine wp_bind.mpr (wp_luaLNewmetatable hreg htable fun b c h' n hopens hname hc => ?_)
  have hroot := hopens.wellRegistered.ne_registry hname
  have hclosed (heap : LibHeap) (k : Bytes) (v : Option (Item LibFunction))
      (h₁ : Opens (MetaWrites h name) h heap) : Opens (MetaWrites h name) h (heap.set c k v) :=
    h₁.set hroot (hc.imp_right .inr) v
  refine wp_bind.mpr (wp_luaPushvalue (slotAt_first _ _) ?_)
  refine wp_bind.mpr (wp_luaSetfield (refAt_second _ _ _) hopens fun n => ?_)
  have hindexed := hclosed _ (ascii "__index") (some (.table c)) hopens
  refine wp_bind.mpr (wp_luaLSetfuncs hclosed hindexed methods fun n hfilled => ?_)
  refine hok _ n hfilled ⟨c, ?_, ?_, fun k f hf => ?_⟩
  · rw [registered, Heap.setAll_fields_ref hroot.symm, Heap.set_fields_ref hroot.symm]
    exact hname
  · rw [Heap.setAll_fields_not_mem (by rwa [functions_keys]), Heap.set_fields_self]
  · exact Heap.setAll_fields_mem (by rwa [functions_keys]) (mem_functions hf)

theorem wp_luaLNewlib_opens {W : Nat → Bytes → Prop} {h₀ : LibHeap} (hopens : Opens W h₀ h)
    {l : List (Bytes × LibFunction)} (hkeys : (l.map Prod.fst).Nodup)
    {Q : Unit → TableState LibFunction → Prop}
    (hok : ∀ h' n, Opens W h₀ h' → Opens (fun _ _ => False) h h' → Private h' h.next →
      Holds h' h.next l → Q ⟨⟩ ⟨some (.table h.next) :: stack, h', fails, n⟩) :
    wp (luaLNewlib l) Q (Fails (Opens W h₀)) ⟨stack, h, fails, calls⟩ := by
  have hreg := hopens.wellRegistered
  -- Both what is changed since the beginning and what is changed here are followed.
  refine (wp_luaLNewlib (G := fun heap => Opens W h₀ heap ∧ Opens (fun _ _ => False) h heap) l
    ⟨hopens, .refl hreg⟩ ⟨hopens.alloc, (Opens.refl hreg).alloc⟩ (fun heap k v h₁ => ⟨?_, ?_⟩)
    fun n hfilled => ?_).mono (fun _ _ hQ => hQ) fun _ _ => Fails.mono fun _ => And.left
  · exact h₁.1.set hreg.ne_new.symm (.inl hopens.changes.next) v
  · exact h₁.2.set hreg.ne_new.symm (.inl (Nat.le_refl _)) v
  · refine hok _ n hfilled.1 hfilled.2 ⟨⟨hreg.next, ?_⟩, fun name => ?_⟩ fun k => ?_
    · rw [Heap.setAll_next]
      exact Nat.lt_succ_self _
    · rw [registered, Heap.setAll_fields_ref hreg.ne_new, Heap.alloc_fields_ref hreg.ne_new]
      exact hreg.not_new (Nat.le_refl _) name
    · exact Heap.setAll_alloc_fields (by rwa [functions_keys]) k

end Rules

/-- What opening it may change. -/
def ZbusWrites (h : LibHeap) (r : Nat) (k : Bytes) : Prop :=
  MetaWrites h zbusChanMetatable r k ∨ MetaWrites h zbusObsMetatable r k

structure ZbusModule (h : LibHeap) (r : Nat) : Prop where
  own : Private h r
  functions : Holds h r zbusLib
  channels : MetaReady h zbusChanMetatable zbusChanMetamethods
  observers : MetaReady h zbusObsMetatable zbusObsMetamethods

theorem chan_ne_obs : zbusChanMetatable ≠ zbusObsMetatable := by decide

section Rules

variable {stack : List (Option (Item LibFunction))} {h : LibHeap} {fails : Nat → Bool}
  {calls : Nat}

theorem wp_luaopenZbus (hreg : WellRegistered h) (hchan : IsTable h zbusChanMetatable)
    (hobs : IsTable h zbusObsMetatable) {Q : Nat → TableState LibFunction → Prop}
    (hok : ∀ h' r n, Opens (ZbusWrites h) h h' → h.next ≤ r → ZbusModule h' r →
      Q 1 ⟨some (.table r) :: stack, h', fails, n⟩) :
    wp luaopenZbus Q (Fails (Opens (ZbusWrites h) h)) ⟨stack, h, fails, calls⟩ := by
  have hfirst {h' : LibHeap} (hopens : Opens (MetaWrites h zbusChanMetatable) h h') :
      Opens (ZbusWrites h) h h' := hopens.mono fun _ _ _ hW => .inl hW
  refine wp_bind.mpr ((wp_openMetatable hreg hchan (by decide) (by decide)
    fun h₁ n hopens₁ hchannels => ?_).mono (fun _ _ hQ => hQ) fun _ _ => Fails.mono fun _ => hfirst)
  have hreg₁ := hopens₁.wellRegistered
  -- What is written next is the other metatable's.
  have hwrites {r : Nat} {k : Bytes} (hr : r < h.next)
      (hW : MetaWrites h₁ zbusObsMetatable r k) : ZbusWrites h r k := by
    obtain hentry | htable := hW
    · exact .inr (.inl hentry)
    · obtain hold | ⟨r', heq, hnew⟩ := hopens₁.entries _ _ htable
      · exact .inr (.inr hold)
      · obtain rfl := Item.table.inj heq
        omega
  have hsecond {h' : LibHeap} (hopens : Opens (MetaWrites h₁ zbusObsMetatable) h₁ h') :
      Opens (ZbusWrites h) h h' := (hfirst hopens₁).trans hopens fun _ _ hr hW => hwrites hr hW
  refine wp_bind.mpr ((wp_openMetatable hreg₁ (hopens₁.isTable hobs) (by decide) (by decide)
    fun h₂ n hopens₂ hobservers => ?_).mono (fun _ _ hQ => hQ)
      fun _ _ => Fails.mono fun _ => hsecond)
  have hchannels₂ : MetaReady h₂ zbusChanMetatable zbusChanMetamethods := by
    refine hchannels.changed hreg₁ hopens₂ ?_ fun c hc k hW => ?_
    · rintro (⟨-, hname⟩ | hroot)
      · exact chan_ne_obs hname
      · exact hreg₁.ne_registry hroot rfl
    · obtain ⟨hc', -⟩ | hc' := hW
      · exact hreg₁.ne_registry hc hc'
      · exact chan_ne_obs (hreg₁.unshared _ _ c hc hc')
  refine wp_bind.mpr (wp_luaLNewlib_opens (hsecond hopens₂) (by decide)
    fun h₃ n hopens₃ hadded hown hholds => ?_)
  have hreg₂ := hopens₂.wellRegistered
  refine hok h₃ h₂.next n hopens₃ (hsecond hopens₂).changes.next ⟨hown, hholds, ?_, ?_⟩
  · exact hchannels₂.changed hreg₂ hadded id fun _ _ _ => id
  · exact hobservers.changed hreg₂ hadded id fun _ _ _ => id

end Rules

theorem ZbusModule.changed {W : Nat → Bytes → Prop} {h h' : LibHeap} {r : Nat}
    (hzbus : ZbusModule h r) (hreg : WellRegistered h) (hopens : Opens W h h')
    (htable : ∀ k, ¬ W r k)
    (hmetas : ∀ name, name = zbusChanMetatable ∨ name = zbusObsMetatable →
      ¬ W registryRef name ∧ ∀ c, registered h name = some (.table c) → ∀ k, ¬ W c k) :
    ZbusModule h' r where
  own := hzbus.own.changed hopens
  functions k := by rw [hopens.changes.table hzbus.own.made.2 htable, hzbus.functions k]
  channels := hzbus.channels.changed hreg hopens (hmetas _ (.inl rfl)).1 (hmetas _ (.inl rfl)).2
  observers := hzbus.observers.changed hreg hopens (hmetas _ (.inr rfl)).1 (hmetas _ (.inr rfl)).2

/-- The globals it replaces. -/
def FsWrites (r : Nat) (k : Bytes) : Prop :=
  r = globalsRef ∧ (k = ascii "dofile" ∨ k = ascii "loadfile")

structure FsModule (h : LibHeap) (r : Nat) : Prop where
  own : Private h r
  functions : Holds h r fsLib
  dofile : h.fields globalsRef (ascii "dofile") = some (.function .lFsDofile)
  loadfile : h.fields globalsRef (ascii "loadfile") = some (.function .lFsLoadfile)

theorem FsModule.changed {W : Nat → Bytes → Prop} {h h' : LibHeap} {r : Nat}
    (hfs : FsModule h r) (hreg : WellRegistered h) (hopens : Opens W h h')
    (htable : ∀ k, ¬ W r k) (hglobals : ∀ k, FsWrites globalsRef k → ¬ W globalsRef k) :
    FsModule h' r where
  own := hfs.own.changed hopens
  functions k := by rw [hopens.changes.table hfs.own.made.2 htable, hfs.functions k]
  dofile := by
    rw [hopens.changes.fields globalsRef _ hreg.globals_lt (hglobals _ ⟨rfl, .inl rfl⟩),
      hfs.dofile]
  loadfile := by
    rw [hopens.changes.fields globalsRef _ hreg.globals_lt (hglobals _ ⟨rfl, .inr rfl⟩),
      hfs.loadfile]

section Rules

variable {stack : List (Option (Item LibFunction))} {h : LibHeap} {fails : Nat → Bool}
  {calls : Nat}

theorem wp_luaopenFs (hreg : WellRegistered h) {Q : Nat → TableState LibFunction → Prop}
    (hok : ∀ h' r n, Opens FsWrites h h' → h.next ≤ r → FsModule h' r →
      Q 1 ⟨some (.table r) :: stack, h', fails, n⟩) :
    wp luaopenFs Q (Fails (Opens FsWrites h)) ⟨stack, h, fails, calls⟩ := by
  refine wp_bind.mpr (wp_luaLNewlib_opens (.refl hreg) (by decide)
    fun h₁ n hopens₁ _ hown hholds => ?_)
  have hwritten {h' : LibHeap} (h₁ : Opens FsWrites h h') (k : Bytes) (hk : FsWrites globalsRef k)
      (f : LibFunction) : Opens FsWrites h (h'.set globalsRef k (some (.function f))) :=
    h₁.set (by decide) (.inr hk) _
  have hdofile := hwritten hopens₁ _ ⟨rfl, .inl rfl⟩ .lFsDofile
  have hloadfile := hwritten hdofile _ ⟨rfl, .inr rfl⟩ .lFsLoadfile
  refine wp_bind.mpr (wp_bind.mpr (wp_luaSetglobal hopens₁ fun n => ?_))
  refine wp_bind.mpr (wp_bind.mpr (wp_luaSetglobal hdofile fun n => ?_))
  refine hok _ h.next n hloadfile (Nat.le_refl _) ⟨⟨hown.made, fun name => ?_⟩, fun k => ?_, ?_, ?_⟩
  · rw [registered, Heap.set_fields_ref (by decide), Heap.set_fields_ref (by decide)]
    exact hown.unregistered name
  · rw [Heap.set_fields_ref hown.ne_globals, Heap.set_fields_ref hown.ne_globals, hholds k]
  · rw [Heap.set_fields_key (by decide), Heap.set_fields_self]
  · rw [Heap.set_fields_self]

end Rules

def ZephyrWrites (h : LibHeap) (r : Nat) (k : Bytes) : Prop := ZbusWrites h r k ∨ FsWrites r k

/-- A field that holds a library where it is configured. -/
def Nested (configured : Bool) (Lib : Nat → Prop) (v : Option (Item LibFunction)) : Prop :=
  match configured with
  | false => v = none
  | true => ∃ r, v = some (.table r) ∧ Lib r

theorem Nested.imp {configured : Bool} {Lib Lib' : Nat → Prop} {v : Option (Item LibFunction)}
    (h : Nested configured Lib v) (himp : ∀ r, v = some (.table r) → Lib r → Lib' r) :
    Nested configured Lib' v := by
  cases configured with
  | false => exact h
  | true =>
      obtain ⟨r, hv, hlib⟩ := h
      exact ⟨r, hv, himp r hv hlib⟩

theorem Nested.of_table {configured : Bool} {Lib : Nat → Prop} {r : Nat}
    (h : Nested configured Lib (some (.table r))) : Lib r := by
  cases configured with
  | false => contradiction
  | true =>
      obtain ⟨r', heq, hlib⟩ := h
      obtain rfl := Item.table.inj (Option.some.inj heq)
      exact hlib

/-- The complete library: the wrappers, and the two libraries nested in it. -/
structure ZephyrModule (cfg : LibConfig) (h : LibHeap) (r : Nat) : Prop where
  own : Private h r
  wrappers : ∀ k, k ≠ ascii "zbus" → k ≠ ascii "fs" →
    h.fields r k = (functions zephyrWrappers).lookup k
  zbus : Nested cfg.zbus (ZbusModule h) (h.fields r (ascii "zbus"))
  fs : Nested cfg.fs (FsModule h) (h.fields r (ascii "fs"))

section Rules

variable {stack : List (Option (Item LibFunction))} {h : LibHeap} {fails : Nat → Bool}
  {calls : Nat}

/-- Opening a library and storing it as a field of the new table `r`. -/
theorem wp_nested {W W' : Nat → Bytes → Prop} {h₀ : LibHeap} {r : Nat} (hreg : WellRegistered h₀)
    (hopens : Opens W h₀ h) (hr : h₀.next ≤ r) {luaopen : LibM Nat} {Lib : LibHeap → Nat → Prop}
    (hluaopen : ∀ {Q : Nat → TableState LibFunction → Prop},
      (∀ h' m n, Opens W' h h' → h.next ≤ m → Lib h' m →
        Q 1 ⟨some (.table m) :: some (.table r) :: stack, h', fails, n⟩) →
      wp luaopen Q (Fails (Opens W' h)) ⟨some (.table r) :: stack, h, fails, calls⟩)
    (hW : ∀ r k, r < h₀.next → W' r k → W r k) {name : Bytes}
    {Q : Unit → TableState LibFunction → Prop}
    (hok : ∀ h' m n, Opens W' h h' → h.next ≤ m → Lib h' m →
      Opens W h₀ (h'.set r name (some (.table m))) →
      Q ⟨⟩ ⟨some (.table r) :: stack, h'.set r name (some (.table m)), fails, n⟩) :
    wp (do let _ ← luaopen; luaSetfield (.slot (-2)) name) Q (Fails (Opens W h₀))
      ⟨some (.table r) :: stack, h, fails, calls⟩ := by
  have hthrough {h' : LibHeap} (h₁ : Opens W' h h') : Opens W h₀ h' :=
    hopens.trans h₁ fun _ _ hlt => hW _ _ hlt
  refine wp_bind.mpr ((hluaopen fun h' m n hopens' hm hlib => ?_).mono (fun _ _ hQ => hQ)
    fun _ _ => Fails.mono fun _ => hthrough)
  refine wp_luaSetfield (refAt_second _ _ _) (hthrough hopens') fun n => ?_
  have hroot : r ≠ registryRef := Nat.ne_of_gt (Nat.lt_of_lt_of_le hreg.registry_lt hr)
  exact hok h' m n hopens' hm hlib ((hthrough hopens').set hroot (.inl hr) _)

/-- The library before `fs` is nested in it. -/
structure ZephyrBegun (cfg : LibConfig) (h : LibHeap) (r : Nat) : Prop where
  own : Private h r
  wrappers : ∀ k, k ≠ ascii "zbus" → h.fields r k = (functions zephyrWrappers).lookup k
  zbus : Nested cfg.zbus (fun z => z ≠ r ∧ ZbusModule h z) (h.fields r (ascii "zbus"))

theorem zbus_ne_fs : ascii "zbus" ≠ ascii "fs" := by decide

theorem wp_nestFs (cfg : LibConfig) {h₀ : LibHeap} {r : Nat} (hreg : WellRegistered h₀)
    (hopens : Opens (ZephyrWrites h₀) h₀ h) (hr : h₀.next ≤ r) (hbegun : ZephyrBegun cfg h r)
    {Q : Unit → TableState LibFunction → Prop}
    (hok : ∀ h' n, Opens (ZephyrWrites h₀) h₀ h' → ZephyrModule cfg h' r →
      Q ⟨⟩ ⟨some (.table r) :: stack, h', fails, n⟩) :
    wp (whenDefined cfg.fs do let _ ← luaopenFs; luaSetfield (.slot (-2)) (ascii "fs")) Q
      (Fails (Opens (ZephyrWrites h₀) h₀)) ⟨some (.table r) :: stack, h, fails, calls⟩ := by
  obtain ⟨hown, hwrappers, hzbus⟩ := hbegun
  have hreg' := hopens.wellRegistered
  cases hfs : cfg.fs with
  | false =>
      refine hok h calls hopens ⟨hown, fun k hk _ => hwrappers k hk, ?_, ?_⟩
      · exact hzbus.imp fun _ _ hmodule => hmodule.2
      · rw [hfs, hwrappers _ zbus_ne_fs.symm]
        rfl
  | true =>
      refine wp_nested hreg hopens hr (wp_luaopenFs hreg') (fun _ _ _ => .inr)
        fun h' f n hopens' hf hmodule hall => hok _ n hall ?_
      have hreg'' := hopens'.wellRegistered
      have hstored : Opens (fun r' k => r' = r ∧ k = ascii "fs") h'
          (h'.set r (ascii "fs") (some (.table f))) :=
        (Opens.refl hreg'').set hown.ne_registry (.inr ⟨rfl, rfl⟩) _
      have hsame := hopens'.changes.table hown.made.2 fun k hW => hown.ne_globals hW.1
      have hown' := hown.changed hopens'
      refine ⟨hown'.changed hstored, ?_, ?_, ?_⟩
      · intro k hk hkfs
        rw [Heap.set_fields_key hkfs, hsame, hwrappers k hk]
      · rw [Heap.set_fields_key zbus_ne_fs, hsame]
        refine hzbus.imp fun z _ hz => ?_
        have hzbus' : ZbusModule h' z := by
          refine hz.2.changed hreg' hopens' (fun k hW => ?_) fun name _ => ⟨?_, ?_⟩
          · exact hz.2.own.ne_globals hW.1
          · exact fun hW => absurd hW.1 (by decide)
          · exact fun c hc k hW => Nat.ne_of_gt (hreg'.ref name c hc).1 hW.1
        refine hzbus'.changed hreg'' hstored (fun k hW => hz.1 hW.1)
          fun name _ => ⟨fun hW => hown.ne_registry hW.1.symm, fun c hc k hW => ?_⟩
        exact hown'.unregistered name (hW.1 ▸ hc)
      · rw [hfs, Heap.set_fields_self]
        have hfr : f ≠ r := Nat.ne_of_gt (Nat.lt_of_lt_of_le hown.made.2 hf)
        exact ⟨f, rfl, hmodule.changed hreg'' hstored (fun k hW => hfr hW.1)
          fun k _ hW => hown.ne_globals hW.1.symm⟩

theorem wp_luaopenZephyr (cfg : LibConfig) (hreg : WellRegistered h)
    (hchan : IsTable h zbusChanMetatable) (hobs : IsTable h zbusObsMetatable)
    {Q : Nat → TableState LibFunction → Prop}
    (hok : ∀ h' r n, Opens (ZephyrWrites h) h h' → h.next ≤ r → ZephyrModule cfg h' r →
      Q 1 ⟨some (.table r) :: stack, h', fails, n⟩) :
    wp (luaopenZephyr cfg) Q (Fails (Opens (ZephyrWrites h) h)) ⟨stack, h, fails, calls⟩ := by
  refine wp_bind.mpr (wp_luaLNewlib_opens (.refl hreg) (by decide)
    fun h₁ n hopens₁ hadded hown hholds => ?_)
  have hreg₁ := hopens₁.wellRegistered
  have hsame (name : Bytes) : registered h₁ name = registered h name :=
    hadded.changes.fields registryRef name hreg.registry_lt id
  have hfinish {h' : LibHeap} {n : Nat} (hopens : Opens (ZephyrWrites h) h h')
      (hbegun : ZephyrBegun cfg h' h.next) :
      wp (do
        whenDefined cfg.fs do let _ ← luaopenFs; luaSetfield (.slot (-2)) (ascii "fs")
        return 1) Q (Fails (Opens (ZephyrWrites h) h))
        ⟨some (.table h.next) :: stack, h', fails, n⟩ :=
    wp_bind.mpr (wp_nestFs cfg hreg hopens (Nat.le_refl _) hbegun
      fun h'' n hall hmodule => hok h'' h.next n hall (Nat.le_refl _) hmodule)
  cases hzbus : cfg.zbus with
  | false =>
      refine hfinish hopens₁ ⟨hown, fun k _ => hholds k, ?_⟩
      rw [hzbus, hholds]
      rfl
  | true =>
      have hnotWritten (k : Bytes) : ¬ ZbusWrites h₁ h.next k := by
        rintro ((⟨hroot, -⟩ | hname) | (⟨hroot, -⟩ | hname))
        · exact hown.ne_registry hroot
        · exact hown.unregistered _ hname
        · exact hown.ne_registry hroot
        · exact hown.unregistered _ hname
      refine wp_bind.mpr (wp_nested hreg hopens₁ (Nat.le_refl _) (wp_luaopenZbus hreg₁
        (hopens₁.isTable hchan) (hopens₁.isTable hobs)) ?_ fun h' z n hopens' hz hmodule hall =>
          hfinish hall ?_)
      · intro r k _ hW
        rw [ZbusWrites, MetaWrites, MetaWrites, hsame, hsame] at hW
        exact .inl hW
      · have hreg' := hopens'.wellRegistered
        have hown' := hown.changed hopens'
        have hstored : Opens (fun r' k => r' = h.next ∧ k = ascii "zbus") h'
            (h'.set h.next (ascii "zbus") (some (.table z))) :=
          (Opens.refl hreg').set hown.ne_registry (.inr ⟨rfl, rfl⟩) _
        refine ⟨hown'.changed hstored, fun k hk => ?_, ?_⟩
        · rw [Heap.set_fields_key hk, hopens'.changes.table hown.made.2 hnotWritten, hholds]
        · rw [hzbus, Heap.set_fields_self]
          have hzr : z ≠ h.next := Nat.ne_of_gt (Nat.lt_of_lt_of_le hown.made.2 hz)
          refine ⟨z, rfl, hzr, hmodule.changed hreg' hstored (fun k hW => hzr hW.1) fun name _ =>
            ⟨fun hW => hown.ne_registry hW.1.symm, fun c hc k hW => ?_⟩⟩
          exact hown'.unregistered name (hW.1 ▸ hc)

end Rules

end LuaZephyr.Libraries
