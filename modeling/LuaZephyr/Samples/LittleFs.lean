import LuaZephyr.Fs.Store
import LuaZephyr.Generate.Bytecode
import LuaZephyr.Generate.Embedding

/-!
# The littlefs sample

`main` mounts a volume of the flash, formats it when it cannot be mounted, and writes three
scripts to it. The shell and the Lua threads use the files meanwhile: a thread may load a
script before `main` has written it, and before there is a volume. The files outlive a boot.

The drivers of the flash are a `Device`, of which only what Zephyr documents is assumed; they may
refuse any call. `main` writes below `/lfs`, wherever the volume is mounted, so on a board with
another mount point its writes are among the refused calls. A start of the board comes between two
calls; one that cuts a call short is not modelled.
-/

namespace LuaZephyr

open PyText CLexing CLiteral CConstants Outcome Programs Runs

namespace LittleFs

/-- `LOG_INF`, `LOG_WRN` and `LOG_ERR`. -/
inductive LogLevel where
  | inf
  | wrn
  | err
  deriving DecidableEq, Repr

/-- The calls of `main`. -/
inductive BootOp where
  | fsMount
  | fsMkfs
  | luaFsWriteFile (path data : Bytes) (len : Nat)
  | printk (text : Bytes)
  | log (level : LogLevel) (text : Bytes)
  deriving DecidableEq, Repr

def BootOp.Reply : BootOp → Type
  | .fsMount => Except Errno Unit
  | .fsMkfs => Except Errno Unit
  | .luaFsWriteFile _ _ _ => LuaInteger
  | .printk _ => Unit
  | .log _ _ => Unit

abbrev BootProg := Prog BootOp BootOp.Reply

def fsMount : BootProg (Except Errno Unit) := Prog.perform BootOp.fsMount

def fsMkfs : BootProg (Except Errno Unit) := Prog.perform BootOp.fsMkfs

def writeFile (path data : Bytes) (len : Nat) : BootProg LuaInteger :=
  Prog.perform (BootOp.luaFsWriteFile path data len)

def printk (text : Bytes) : BootProg Unit := Prog.perform (BootOp.printk text)

def log (level : LogLevel) (text : Bytes) : BootProg Unit :=
  Prog.perform (BootOp.log level text)

/-- The arrays of the generated headers. The texts end with a NUL, the bytecode does not. -/
structure Images where
  helloFsLuaScript : Bytes
  greetLuaScript : Bytes
  infoLuaBytecode : Bytes

/-- How `main` ends: it returns, or sleeps forever. -/
inductive MainEnd where
  | returned (rc : LuaInteger)
  | asleep
  deriving DecidableEq, Repr

section Main

variable (mountPoint : Bytes) (img : Images)

/-- The end of `mount_fs`. -/
def logMounted : BootProg (Except Errno Unit) := do
  log .inf (ascii "LittleFS mounted at " ++ mountPoint)
  return .ok ⟨⟩

/-- `mount_fs`, from the failure of the second `fs_mount` or its success. -/
def remounted : Except Errno Unit → BootProg (Except Errno Unit)
  | .ok _ => logMounted mountPoint
  | .error rc => do
      log .err (ascii s!"fs_mount after format failed: {rc.code.toInt}")
      return .error rc

/-- `mount_fs`, when the first `fs_mount` has failed. -/
def format (rc : Errno) : BootProg (Except Errno Unit) := do
  log .wrn (ascii s!"fs_mount failed: {rc.code.toInt}, formatting...")
  match ← fsMkfs with
  | .error rc =>
      log .err (ascii s!"fs_mkfs failed: {rc.code.toInt}")
      return .error rc
  | .ok _ => remounted mountPoint (← fsMount)

/-- `mount_fs`. -/
def mountFs : BootProg (Except Errno Unit) := do
  match ← fsMount with
  | .ok _ => logMounted mountPoint
  | .error rc => format mountPoint rc

/-- What `main` does on the volume. -/
def bootstrap : BootProg MainEnd := do
  printk (ascii "Bootstrap: writing scripts to LittleFS\n")
  let _ ← writeFile (ascii "/lfs/hello_fs.lua") img.helloFsLuaScript 0
  let _ ← writeFile (ascii "/lfs/greet.lua") img.greetLuaScript 0
  let _ ← writeFile (ascii "/lfs/info.lua") img.infoLuaBytecode img.infoLuaBytecode.length
  printk (ascii "Bootstrap: done\n")
  return .asleep

/-- `main`. -/
def main : BootProg MainEnd := do
  match ← mountFs mountPoint with
  | .error rc =>
      printk (ascii s!"Failed to mount filesystem: {rc.code.toInt}\n")
      return .returned rc.code
  | .ok _ => bootstrap img

end Main

/-- The flash of the board with its drivers: the file system, whether a volume is mounted, and
the files on the flash. -/
structure Device (β : Type) where
  volume : Volume β
  mounted : β → Bool
  flash : β → FileContents
  mount : β → Except Errno Unit × β
  mkfs : β → Except Errno Unit × β
  reboot : β → β

/-- What Zephyr documents of the drivers. Mounting may format the flash on its own. -/
structure Device.Documented {β : Type} (d : Device β) : Prop where
  volume : d.volume.Documented
  /-- Without a volume no path leads anywhere. -/
  view : ∀ b, (d.volume.view b).files = if d.mounted b then d.flash b else fun _ => none
  serve_mounted : ∀ op b, d.mounted (d.volume.serve op b).2 = d.mounted b
  serve_flash : ∀ op b, d.mounted b = false → d.flash (d.volume.serve op b).2 = d.flash b
  mount : ∀ b, d.mounted (d.mount b).2 = (d.mounted b || (d.mount b).1.isOk)
  mkfs : ∀ b, d.mounted (d.mkfs b).2 = d.mounted b
  mkfs_flash : ∀ b, (d.mkfs b).1 = .ok ⟨⟩ → d.flash (d.mkfs b).2 = fun _ => none
  reboot : ∀ b, d.mounted (d.reboot b) = false
  reboot_flash : ∀ b, d.flash (d.reboot b) = d.flash b

section Unmounted

variable {β : Type} {d : Device β} {b : β} (hd : d.Documented)
  (hunmounted : d.mounted b = false)
include hd hunmounted

/-- Without a volume no file is created. -/
theorem Device.Documented.open_unmounted (path : Bytes) :
    ∃ rc, (d.volume.serve (.open path .createWrite) b).1 = .error rc := by
  cases hopen : (d.volume.serve (.open path .createWrite) b).1 with
  | error rc => exact ⟨rc, rfl⟩
  | ok _ =>
      have hgranted : (FileOp.open path .createWrite).granted
          (d.volume.serve (.open path .createWrite) b).1 = true := by
        rw [hopen]
        rfl
      have hview : Function.update (d.volume.view b).files path _ =
          (d.volume.view (d.volume.serve (.open path .createWrite) b).2).files :=
        congrArg (·.2.files) (hd.volume.granted _ b hgranted)
      have hempty : (d.volume.view (d.volume.serve (.open path .createWrite) b).2).files =
          fun _ => none := by
        rw [hd.view, hd.serve_mounted, hunmounted, if_neg Bool.false_ne_true]
      rw [hempty] at hview
      exact absurd ((Function.update_self ..).symm.trans (congrFun hview path)) nofun

theorem Device.Documented.write_unmounted (mountPoint : Bytes) (argv : List Bytes)
    (keys : List UInt8) : ∃ rc : Errno,
    (d.volume.run (cmdWriteKeys mountPoint argv keys) b).1.1 = (.returned rc.code, keys) := by
  cases hpath : commandPath mountPoint argv with
  | error rc =>
      obtain ⟨hexec, -, -⟩ := exec_of_noPath d.volume.noting.handle hpath keys 0 (b, false)
      exact ⟨rc, congrArg Prod.fst hexec⟩
  | ok path =>
      obtain ⟨rc, hopen⟩ := hd.open_unmounted hunmounted path
      have hnoted : (d.volume.noting.serve (.open path .createWrite) (b, false)).1 = .error rc :=
        hopen
      refine ⟨rc, ?_⟩
      obtain _ | ⟨command, _ | ⟨name, more⟩⟩ := argv
      · contradiction
      · contradiction
      · rw [commandPath] at hpath
        simp only [Volume.run, cmdWriteKeys, hpath, Volume.exec_fsOpen, hnoted]
        rfl

theorem Device.Documented.save_unmounted (path data : Bytes) (len : Nat) : ∃ rc : Errno,
    (d.volume.run (luaFsWriteFile path data len) b).1 = (rc.code, true) := by
  obtain ⟨rc, hopen⟩ := hd.open_unmounted hunmounted path
  have hnoted : (d.volume.noting.serve (.open path .createWrite) (b, false)).1 = .error rc := hopen
  have hrefused := Volume.noting_refused (congrArg (FileOp.granted _) hnoted)
  refine ⟨rc, ?_⟩
  simp only [Volume.run, luaFsWriteFile, Volume.exec_fsOpen, hnoted]
  exact Prod.ext rfl hrefused

end Unmounted

/-- The files and the Lua threads, and what `main` has still to do. -/
structure Board (β : Type) where
  host : ScriptHost β
  main : BootProg MainEnd

/-- The board is started again, with new Lua states; `main` makes its next call; or something
else uses the files. -/
inductive Event where
  | boot (thread : Nat → State Unit)
  | main
  | call (c : StoreCall)

/-- A call of `main` with its reply, the files it has left on the flash if it was about all of
them, and whether the file system has refused something. -/
inductive Answer where
  | booted
  | idle
  | asked (x : (op : BootOp) × op.Reply) (left : Option FileContents) (refused : Bool)
  | answered (mounted : Bool) (a : Answered)

namespace Device

variable {β : Type} (d : Device β)

/-- A call of `main`. -/
def perform (b : β) : (op : BootOp) → (op.Reply × Option FileContents × Bool) × β
  | .fsMount => (((d.mount b).1, some (d.flash (d.mount b).2), false), (d.mount b).2)
  | .fsMkfs => (((d.mkfs b).1, some (d.flash (d.mkfs b).2), false), (d.mkfs b).2)
  | .luaFsWriteFile path data len =>
      let r := d.volume.run (luaFsWriteFile path data len) b
      ((r.1.1, none, r.1.2), r.2)
  | .printk _ => ((⟨⟩, none, false), b)
  | .log _ _ => ((⟨⟩, none, false), b)

variable (cfg : FsConfig) (core : LuaCore (β × Bool)) (img : Images)

/-- The board at its start. -/
def booted (store : β) (thread : Nat → State Unit) : Board β :=
  ⟨⟨thread, d.reboot store⟩, LittleFs.main cfg.mountPoint img⟩

def step (b : Board β) : Event → Answer × Board β
  | .boot thread => (.booted, d.booted cfg img b.host.store thread)
  | .main =>
      match b.main with
      | .done _ => (.idle, b)
      | .call op next =>
          let r := d.perform b.host.store op
          (.asked ⟨op, r.1.1⟩ r.1.2.1 r.1.2.2, ⟨{ b.host with store := r.2 }, next r.1.1⟩)
  | .call c =>
      let r := b.host.step d.volume cfg core c
      (.answered (d.mounted b.host.store) r.1, { b with host := r.2 })

/-- The files on the flash. -/
def files (b : Board β) : FileContents := d.flash b.host.store

end Device

/-- The files `main` is to write, by path. -/
def Images.deployed (img : Images) : List (Bytes × Bytes) :=
  [(ascii "/lfs/hello_fs.lua", requestedBytes img.helloFsLuaScript 0),
    (ascii "/lfs/greet.lua", requestedBytes img.greetLuaScript 0),
    (ascii "/lfs/info.lua", requestedBytes img.infoLuaBytecode img.infoLuaBytecode.length)]

/-- The calls of `main` with their replies. -/
abbrev Asked := List ((op : BootOp) × op.Reply)

/-- The call has mounted the volume. -/
def mounts : (op : BootOp) × op.Reply → Bool
  | ⟨.fsMount, .ok _⟩ => true
  | _ => false

section Course

variable {mountPoint : Bytes} {img : Images} {asked : Asked}

theorem logMounted_done {r : Except Errno Unit}
    (h : (logMounted mountPoint).Leads asked (.done r)) : r = .ok ⟨⟩ := by
  obtain ⟨-, hq⟩ | ⟨_, rest, -, h⟩ := Prog.leads_call.mp h
  · contradiction
  · obtain ⟨-, hq⟩ := Prog.leads_done.mp h
    exact Prog.done.inj hq

/-- `mount_fs` succeeds exactly when a volume has been mounted. -/
theorem mountFs_done {r : Except Errno Unit} (h : (mountFs mountPoint).Leads asked (.done r)) :
    r = .ok ⟨⟩ ∧ asked.any mounts = true ∨ ∃ rc, r = .error rc ∧ asked.any mounts = false := by
  obtain ⟨-, hq⟩ | ⟨mounted, _, rfl, hmount⟩ := Prog.leads_call.mp h
  · contradiction
  cases mounted with
  | ok _ => exact .inl ⟨logMounted_done hmount, rfl⟩
  | error rc =>
      obtain ⟨-, hq⟩ | ⟨_, _, rfl, hlog⟩ := Prog.leads_call.mp hmount
      · contradiction
      obtain ⟨-, hq⟩ | ⟨formatted, _, rfl, hformat⟩ := Prog.leads_call.mp hlog
      · contradiction
      cases formatted with
      | error rc' =>
          obtain ⟨-, hq⟩ | ⟨_, _, rfl, hdone⟩ := Prog.leads_call.mp hformat
          · contradiction
          obtain ⟨rfl, hq⟩ := Prog.leads_done.mp hdone
          exact .inr ⟨rc', Prog.done.inj hq, rfl⟩
      | ok _ =>
          obtain ⟨-, hq⟩ | ⟨remounted, _, rfl, hremount⟩ := Prog.leads_call.mp hformat
          · contradiction
          cases remounted with
          | ok _ => exact .inl ⟨logMounted_done hremount, rfl⟩
          | error rc' =>
              obtain ⟨-, hq⟩ | ⟨_, _, rfl, hdone⟩ := Prog.leads_call.mp hremount
              · contradiction
              obtain ⟨rfl, hq⟩ := Prog.leads_done.mp hdone
              exact .inr ⟨rc', Prog.done.inj hq, rfl⟩

/-- The calls of `mount_fs`. -/
def ForVolume : BootOp → Prop
  | .fsMount | .fsMkfs | .log _ _ => True
  | _ => False

theorem logMounted_asks {op : BootOp} (h : (logMounted mountPoint).Asks op) : ForVolume op := by
  obtain rfl | ⟨_, h⟩ := Prog.asks_call.mp h
  · trivial
  · exact absurd h Prog.not_asks_done

theorem remounted_asks {r : Except Errno Unit} {op : BootOp}
    (h : (remounted mountPoint r).Asks op) : ForVolume op := by
  cases r with
  | ok _ => exact logMounted_asks h
  | error rc =>
      obtain rfl | ⟨_, h⟩ := Prog.asks_call.mp h
      · trivial
      · exact absurd h Prog.not_asks_done

theorem mountFs_asks {op : BootOp} (h : (mountFs mountPoint).Asks op) : ForVolume op := by
  obtain rfl | ⟨mounted, hmount⟩ := Prog.asks_call.mp h
  · trivial
  cases mounted with
  | ok _ => exact logMounted_asks hmount
  | error rc =>
      obtain rfl | ⟨_, hlog⟩ := Prog.asks_call.mp hmount
      · trivial
      obtain rfl | ⟨formatted, hformat⟩ := Prog.asks_call.mp hlog
      · trivial
      cases formatted with
      | error rc' =>
          obtain rfl | ⟨_, hdone⟩ := Prog.asks_call.mp hformat
          · trivial
          · exact absurd hdone Prog.not_asks_done
      | ok _ =>
          obtain rfl | ⟨_, hremount⟩ := Prog.asks_call.mp hformat
          · trivial
          · exact remounted_asks hremount

/-- The calls of `main` on a volume. -/
def ForFiles : BootOp → Prop
  | .luaFsWriteFile _ data len => len ≤ data.length
  | .printk _ => True
  | _ => False

theorem bootstrap_asks {op : BootOp} (h : (bootstrap img).Asks op) : ForFiles op := by
  obtain rfl | ⟨_, h₁⟩ := Prog.asks_call.mp h
  · trivial
  obtain rfl | ⟨_, h₂⟩ := Prog.asks_call.mp h₁
  · exact Nat.zero_le _
  obtain rfl | ⟨_, h₃⟩ := Prog.asks_call.mp h₂
  · exact Nat.zero_le _
  obtain rfl | ⟨_, h₄⟩ := Prog.asks_call.mp h₃
  · exact Nat.le_refl _
  obtain rfl | ⟨_, h₅⟩ := Prog.asks_call.mp h₄
  · trivial
  exact absurd h₅ Prog.not_asks_done

/-- When `main` is about to write a file, a volume has been mounted, and there are as many
bytes as it says. -/
theorem main_writes {path data : Bytes} {len : Nat} {next : LuaInteger → BootProg MainEnd}
    (h : (main mountPoint img).Leads asked (.call (.luaFsWriteFile path data len) next)) :
    asked.any mounts = true ∧ len ≤ data.length := by
  obtain ⟨op, rest, hmount, hq⟩ | ⟨r, first, second, rfl, hmount, hrest⟩ := Prog.Leads.of_bind h
  · obtain ⟨rfl, -⟩ := Prog.call.inj hq
    exact (mountFs_asks (hmount.asks (.inr .here))).elim
  · obtain ⟨rfl, hmounted⟩ | ⟨rc, rfl, -⟩ := mountFs_done hmount
    · refine ⟨by rw [List.any_append, hmounted, Bool.true_or], ?_⟩
      exact bootstrap_asks (hrest.asks (.inr .here))
    · obtain ⟨-, hq⟩ | ⟨_, _, rfl, hdone⟩ := Prog.leads_call.mp hrest
      · obtain ⟨hop, -⟩ := Prog.call.inj hq
        contradiction
      · obtain ⟨-, hq⟩ := Prog.leads_done.mp hdone
        contradiction

/-- What `main` has asked for on the volume when it sleeps, with the replies to the writes. -/
def bootstrapAsked (img : Images) (r₁ r₂ r₃ : LuaInteger) : Asked :=
  [⟨.printk (ascii "Bootstrap: writing scripts to LittleFS\n"), ⟨⟩⟩,
    ⟨.luaFsWriteFile (ascii "/lfs/hello_fs.lua") img.helloFsLuaScript 0, r₁⟩,
    ⟨.luaFsWriteFile (ascii "/lfs/greet.lua") img.greetLuaScript 0, r₂⟩,
    ⟨.luaFsWriteFile (ascii "/lfs/info.lua") img.infoLuaBytecode img.infoLuaBytecode.length, r₃⟩,
    ⟨.printk (ascii "Bootstrap: done\n"), ⟨⟩⟩]

theorem bootstrap_done {e : MainEnd} (h : (bootstrap img).Leads asked (.done e)) :
    e = .asleep ∧ ∃ r₁ r₂ r₃, asked = bootstrapAsked img r₁ r₂ r₃ := by
  obtain ⟨-, hq⟩ | ⟨_, _, rfl, h₁⟩ := Prog.leads_call.mp h
  · contradiction
  obtain ⟨-, hq⟩ | ⟨r₁, _, rfl, h₂⟩ := Prog.leads_call.mp h₁
  · contradiction
  obtain ⟨-, hq⟩ | ⟨r₂, _, rfl, h₃⟩ := Prog.leads_call.mp h₂
  · contradiction
  obtain ⟨-, hq⟩ | ⟨r₃, _, rfl, h₄⟩ := Prog.leads_call.mp h₃
  · contradiction
  obtain ⟨-, hq⟩ | ⟨_, _, rfl, h₅⟩ := Prog.leads_call.mp h₄
  · contradiction
  obtain ⟨rfl, hq⟩ := Prog.leads_done.mp h₅
  exact ⟨Prog.done.inj hq, r₁, r₂, r₃, rfl⟩

/-- `main` sleeps once it has written its files one after the other, and returns without a
volume and without having written any. -/
theorem main_done {e : MainEnd} (h : (main mountPoint img).Leads asked (.done e)) :
    (e = .asleep ∧ asked.any mounts = true ∧
        ∃ first r₁ r₂ r₃, asked = first ++ bootstrapAsked img r₁ r₂ r₃) ∨
      (∃ rc : Errno, e = .returned rc.code) ∧ asked.any mounts = false ∧
        ∀ path data len r, ⟨.luaFsWriteFile path data len, r⟩ ∉ asked := by
  obtain ⟨op, rest, -, hq⟩ | ⟨r, first, second, rfl, hmount, hrest⟩ := Prog.Leads.of_bind h
  · contradiction
  · obtain ⟨rfl, hmounted⟩ | ⟨rc, rfl, hunmounted⟩ := mountFs_done hmount
    · obtain ⟨rfl, r₁, r₂, r₃, rfl⟩ := bootstrap_done hrest
      refine .inl ⟨rfl, ?_, first, r₁, r₂, r₃, rfl⟩
      rw [List.any_append, hmounted, Bool.true_or]
    · obtain ⟨-, hq⟩ | ⟨_, _, rfl, hdone⟩ := Prog.leads_call.mp hrest
      · contradiction
      · obtain ⟨rfl, hq⟩ := Prog.leads_done.mp hdone
        refine .inr ⟨⟨rc, Prog.done.inj hq⟩, ?_, fun path data len r hmem => ?_⟩
        · rw [List.any_append, hunmounted]
          rfl
        · obtain hmem | hmem := List.mem_append.mp hmem
          · exact mountFs_asks (hmount.asks (.inl ⟨r, hmem⟩))
          · have hop := congrArg Sigma.fst (List.mem_singleton.mp hmem)
            contradiction

/-- `main` formats the flash only when it cannot be mounted. -/
theorem main_formats {q : BootProg MainEnd} (h : (main mountPoint img).Leads asked q)
    {r : Except Errno Unit} (hformat : ⟨.fsMkfs, r⟩ ∈ asked) :
    ∃ rc rest, asked = ⟨.fsMount, .error rc⟩ :: rest := by
  obtain ⟨rfl, -⟩ | ⟨mounted, rest, rfl, hrest⟩ := Prog.leads_call.mp h
  · contradiction
  cases mounted with
  | error rc => exact ⟨rc, rest, rfl⟩
  | ok _ =>
      obtain heq | hmem := List.mem_cons.mp hformat
      · have hop := congrArg Sigma.fst heq
        contradiction
      · have hasks : Prog.Asks BootOp.fsMkfs _ := hrest.asks (.inl ⟨r, hmem⟩)
        obtain hop | ⟨_, hasks⟩ := Prog.asks_call.mp hasks
        · contradiction
        · exact (bootstrap_asks hasks).elim

end Course

section History

variable (mountPoint : Bytes)

/-- What is known of the files after a call from elsewhere. -/
def learnCall (known : Known Bytes (Option Bytes)) : Event × Answer → Known Bytes (Option Bytes)
  | (.call c, .answered true a) => LuaZephyr.learn mountPoint known (c, a)
  | _ => known

/-- What is known of the flash after an entry. -/
def learn (known : Known Bytes (Option Bytes)) : Event × Answer → Known Bytes (Option Bytes)
  | (_, .asked ⟨.fsMount, _⟩ (some left) _) => knownWhole left
  | (_, .asked ⟨.fsMkfs, _⟩ (some left) _) => knownWhole left
  | (_, .asked ⟨.luaFsWriteFile path data len, _⟩ _ refused) =>
      Function.update known path (if refused then none else some (some (requestedBytes data len)))
  | x => learnCall mountPoint known x

/-- What is known when one file is. -/
def knownOf (file : Bytes × Bytes) : Known Bytes (Option Bytes) :=
  Function.update (fun _ => none) file.1 (some (some file.2))

/-- The file a call from elsewhere may have changed with this entry. -/
def callTarget : Event × Answer → Option Bytes
  | (.call c, .answered true _) => c.target mountPoint
  | _ => none

/-- The file system has refused something. -/
def isRefused : Event × Answer → Bool
  | (_, .asked _ _ refused) => refused
  | (_, .answered _ a) => a.refused
  | _ => false

end History

/-- The answer is right while there is no volume: nothing is found, and nothing is stored. -/
def AnsweredUnmounted {β : Type} (cfg : FsConfig) (core : LuaCore (β × Bool)) (enough : Prop) :
    StoreCall × Answered → Prop
  | (.write _ keys, a) => ∃ rc : Errno, a.answer = .ended (.returned rc.code) keys
  | (.save _ _ _, a) => ∃ rc : Errno, a = ⟨.returned rc.code, true⟩
  | x => LuaZephyr.AnsweredFrom cfg core enough (fun _ => none) x

/-- The answer is right for these files. -/
def AnsweredFrom {β : Type} (cfg : FsConfig) (core : LuaCore (β × Bool)) (enough : Prop)
    (files : FileContents) : Event × Answer → Prop
  | (.call c, .answered true a) => LuaZephyr.AnsweredFrom cfg core enough files (c, a)
  | (.call c, .answered false a) => AnsweredUnmounted cfg core enough (c, a)
  | (_, .asked ⟨.fsMkfs, .ok _⟩ left _) => left = some fun _ => none
  | (_, .asked ⟨.luaFsWriteFile _ _ _, rc⟩ _ refused) => refused = false → rc = (0 : LuaInteger)
  | _ => True

def askedOf : Event × Answer → Option ((op : BootOp) × op.Reply)
  | (_, .asked x _ _) => some x
  | _ => none

/-- The calls `main` has made in these entries. -/
def asked (entries : List (Event × Answer)) : Asked := entries.filterMap askedOf

def isBoot : Event × Answer → Bool
  | (.boot _, _) => true
  | _ => false

/-- The entries since the last start of the board. -/
def sinceBoot (history : List (Event × Answer)) : List (Event × Answer) :=
  (history.reverse.takeWhile (! isBoot ·)).reverse

theorem sinceBoot_concat (history : List (Event × Answer)) (x : Event × Answer) :
    sinceBoot (history ++ [x]) = if isBoot x then [] else sinceBoot history ++ [x] := by
  rw [sinceBoot, List.reverse_concat, List.takeWhile_cons]
  cases hboot : isBoot x with
  | true => rfl
  | false => exact List.reverse_cons

/-- The history ends with these entries. -/
theorem exists_before_sinceBoot (history : List (Event × Answer)) :
    ∃ before, history = before ++ sinceBoot history := by
  refine ⟨(history.reverse.dropWhile (! isBoot ·)).reverse, ?_⟩
  rw [sinceBoot, ← List.reverse_append, List.takeWhile_append_dropWhile, List.reverse_reverse]

/-- How far the board has come since its start. -/
structure Course {β : Type} (d : Device β) (mountPoint : Bytes) (img : Images)
    (entries : List (Event × Answer)) (b : Board β) : Prop where
  leads : (main mountPoint img).Leads (asked entries) b.main
  mounted : d.mounted b.host.store = (asked entries).any mounts
  answered : d.mounted b.host.store = false → ∀ x ∈ entries, ∀ a, x.2 ≠ .answered true a

/-- An event that may happen: the input of a call ends, and its thread has memory. -/
def Event.Ok {β : Type} (cfg : FsConfig) (enough : Prop) (b : Board β) : Event → Prop
  | .call c => c.Complete cfg.mountPoint ∧ (enough → c.Fits cfg b.host)
  | _ => True

/-- What an event did to the files, and that the answer is right. -/
structure EventStep {β : Type} (d : Device β) (cfg : FsConfig) (core : LuaCore (β × Bool))
    (img : Images) (enough : Prop) (entries : List (Event × Answer)) (b : Board β) (e : Event) :
    Prop where
  course : Course d cfg.mountPoint img
    (if isBoot (e, (d.step cfg core img b e).1) then []
      else entries ++ [(e, (d.step cfg core img b e).1)]) (d.step cfg core img b e).2
  learned : ∀ known, Agrees known (d.files b) →
    Agrees (learn cfg.mountPoint known (e, (d.step cfg core img b e).1))
      (d.files (d.step cfg core img b e).2)
  answer : AnsweredFrom cfg core enough (d.files b) (e, (d.step cfg core img b e).1)

section Step

variable {β : Type} {d : Device β} {cfg : FsConfig} {core : LuaCore (β × Bool)} {img : Images}
  {enough : Prop} {entries : List (Event × Answer)} {b : Board β}

theorem asked_concat (x : Event × Answer) :
    asked (entries ++ [x]) = asked entries ++ (askedOf x).toList := by
  rw [asked, List.filterMap_append, asked]
  cases hx : askedOf x with
  | none => simp [hx]
  | some y => simp [hx]

theorem booted_course (hd : d.Documented) (store : β) (thread : Nat → State Unit) :
    Course d cfg.mountPoint img [] (d.booted cfg img store thread) :=
  ⟨.nil _, hd.reboot store, fun _ _ hx => absurd hx List.not_mem_nil⟩

/-- An entry that is no call of `main` leaves the course as it is. -/
theorem Course.concat (hcourse : Course d cfg.mountPoint img entries b) {b' : Board β}
    (hmain : b'.main = b.main) (hmounted : d.mounted b'.host.store = d.mounted b.host.store)
    {x : Event × Answer} (hx : askedOf x = none)
    (hanswered : d.mounted b.host.store = false → ∀ a, x.2 ≠ .answered true a) :
    Course d cfg.mountPoint img (entries ++ [x]) b' := by
  have hasked : asked (entries ++ [x]) = asked entries := by
    rw [asked_concat, hx]
    exact List.append_nil _
  refine ⟨?_, ?_, fun h y hy a => ?_⟩
  · rw [hasked, hmain]
    exact hcourse.leads
  · rw [hasked, hmounted]
    exact hcourse.mounted
  · have hbefore : d.mounted b.host.store = false := hmounted.symm.trans h
    obtain hy | hy := List.mem_append.mp hy
    · exact hcourse.answered hbefore y hy a
    · obtain rfl := List.mem_singleton.mp hy
      exact hanswered hbefore a

theorem Device.Documented.files_mounted (hd : d.Documented) {store : β}
    (h : d.mounted store = true) : (d.volume.view store).files = d.flash store := by
  rw [hd.view, h, if_pos rfl]

theorem Device.Documented.files_unmounted (hd : d.Documented) {store : β}
    (h : d.mounted store = false) : (d.volume.view store).files = fun _ => none := by
  rw [hd.view, h, if_neg Bool.false_ne_true]

variable (core) in
/-- While there is no volume a call leaves the flash as it is. -/
theorem call_unmounted (hd : d.Documented) (hunmounted : d.mounted b.host.store = false)
    {c : StoreCall} (hcomplete : c.Complete cfg.mountPoint) (hfits : enough → c.Fits cfg b.host) :
    let r := b.host.step d.volume cfg core c
    (d.mounted r.2.store = false ∧ d.flash r.2.store = d.flash b.host.store) ∧
      AnsweredUnmounted cfg core enough (c, r.1) := by
  intro r
  have hstep : StoreStep d.volume cfg core enough b.host c := storeStep hd.volume hcomplete hfits
  have hanswer := hstep.answer
  rw [hd.files_unmounted hunmounted] at hanswer
  refine ⟨ScriptHost.step_keeps (I := fun store => d.mounted store = false ∧
      d.flash store = d.flash b.host.store) (fun op store h => ?_) b.host c ⟨hunmounted, rfl⟩, ?_⟩
  · exact ⟨(hd.serve_mounted op store).trans h.1, (hd.serve_flash op store h.1).trans h.2⟩
  · cases c with
    | write argv keys =>
        obtain ⟨rc, hrc⟩ := hd.write_unmounted hunmounted cfg.mountPoint argv keys
        exact ⟨rc, congrArg (fun x : CommandEnd × List UInt8 => StoreAnswer.ended x.1 x.2) hrc⟩
    | save path data len =>
        obtain ⟨rc, hrc⟩ := hd.save_unmounted hunmounted path data len
        exact ⟨rc, congrArg (fun x : LuaInteger × Bool => Answered.mk (.returned x.1) x.2) hrc⟩
    | cat argv => exact hanswer
    | delete argv => exact hanswer
    | load i path => exact hanswer
    | script i next => exact hanswer

theorem eventStep_call (hd : d.Documented) (hcourse : Course d cfg.mountPoint img entries b)
    {c : StoreCall} (hcomplete : c.Complete cfg.mountPoint)
    (hfits : enough → c.Fits cfg b.host) :
    EventStep d cfg core img enough entries b (.call c) := by
  have hkept : d.mounted (b.host.step d.volume cfg core c).2.store = d.mounted b.host.store :=
    ScriptHost.step_keeps (I := fun store => d.mounted store = d.mounted b.host.store)
      (fun op store h => (hd.serve_mounted op store).trans h) b.host c rfl
  cases hmounted : d.mounted b.host.store with
  | true =>
      have hstep : StoreStep d.volume cfg core enough b.host c :=
        storeStep hd.volume hcomplete hfits
      have heq : d.step cfg core img b (.call c) =
          (.answered true (b.host.step d.volume cfg core c).1,
            { b with host := (b.host.step d.volume cfg core c).2 }) := by
        rw [Device.step, hmounted]
      have hbefore := hd.files_mounted hmounted
      have hafter := hd.files_mounted (hkept.trans hmounted)
      refine ⟨?_, fun known hknown => ?_, ?_⟩
      · rw [heq]
        refine hcourse.concat ?_ ?_ ?_ fun h => Bool.noConfusion (hmounted.symm.trans h)
        · rfl
        · exact hkept
        · rfl
      · rw [heq, Device.files, ← hafter]
        refine hstep.agrees ?_
        rw [hbefore]
        exact hknown
      · rw [heq, Device.files, ← hbefore]
        exact hstep.answer
  | false =>
      obtain ⟨⟨-, hflash⟩, hanswer⟩ := call_unmounted core hd hmounted hcomplete hfits
      have heq : d.step cfg core img b (.call c) =
          (.answered false (b.host.step d.volume cfg core c).1,
            { b with host := (b.host.step d.volume cfg core c).2 }) := by
        rw [Device.step, hmounted]
      refine ⟨?_, fun known hknown => ?_, ?_⟩
      · rw [heq]
        refine hcourse.concat ?_ ?_ ?_ fun _ a h => ?_
        · rfl
        · exact hkept
        · rfl
        · exact Bool.noConfusion (Answer.answered.inj h).1
      · rw [heq, Device.files, hflash]
        exact hknown
      · rw [heq]
        exact hanswer

variable (core enough) in
/-- What a call of `main` does to the board. -/
theorem perform_spec (hd : d.Documented) (store : β) {op : BootOp}
    (hwrite : ∀ path data len, op = .luaFsWriteFile path data len →
      d.mounted store = true ∧ len ≤ data.length) :
    let r := d.perform store op
    let x : Event × Answer := (.main, .asked ⟨op, r.1.1⟩ r.1.2.1 r.1.2.2)
    d.mounted r.2 = (d.mounted store || mounts ⟨op, r.1.1⟩) ∧
      (∀ known, Agrees known (d.flash store) →
        Agrees (learn cfg.mountPoint known x) (d.flash r.2)) ∧
      AnsweredFrom cfg core enough (d.flash store) x := by
  cases op with
  | fsMount =>
      refine ⟨?_, fun _ _ => agrees_knownWhole _, trivial⟩
      refine (hd.mount store).trans (congrArg _ ?_)
      change (d.mount store).1.isOk = mounts ⟨.fsMount, (d.mount store).1⟩
      cases (d.mount store).1 with
      | _ => rfl
  | fsMkfs =>
      refine ⟨(hd.mkfs store).trans (Bool.or_false _).symm, fun _ _ => agrees_knownWhole _, ?_⟩
      change AnsweredFrom cfg core enough _
        (.main, .asked ⟨.fsMkfs, (d.mkfs store).1⟩ (some (d.flash (d.mkfs store).2)) false)
      cases hmkfs : (d.mkfs store).1 with
      | error rc => trivial
      | ok _ => exact congrArg some (hd.mkfs_flash store hmkfs)
  | luaFsWriteFile path data len =>
      obtain ⟨hmounted, hlen⟩ := hwrite path data len rfl
      have hkept : d.mounted (d.volume.run (luaFsWriteFile path data len) store).2 = true :=
        Volume.run_keeps (I := fun store => d.mounted store = true)
          (fun op store h => (hd.serve_mounted op store).trans h) _ hmounted
      let h : ScriptHost β := ⟨fun _ => State.idle 0 (), store⟩
      have hstep : StoreStep d.volume cfg core enough h (.save path data len) :=
        storeStep_save hd.volume path hlen
      have hbefore := hd.files_mounted hmounted
      have hafter := hd.files_mounted hkept
      refine ⟨hkept.trans (by rw [hmounted, Bool.true_or]), fun known hknown => ?_,
        fun hrefused => StoreAnswer.returned.inj (hstep.answer hrefused)⟩
      rw [← hbefore] at hknown
      have hagrees := hstep.agrees hknown
      change Agrees _ (d.volume.view (d.volume.run (luaFsWriteFile path data len) store).2).files
        at hagrees
      rw [hafter] at hagrees
      exact hagrees
  | printk text => exact ⟨(Bool.or_false _).symm, fun _ h => h, trivial⟩
  | log level text => exact ⟨(Bool.or_false _).symm, fun _ h => h, trivial⟩

theorem eventStep_main (hd : d.Documented) (hcourse : Course d cfg.mountPoint img entries b) :
    EventStep d cfg core img enough entries b .main := by
  cases hmain : b.main with
  | done e =>
      have heq : d.step cfg core img b .main = (.idle, b) := by
        simp only [Device.step, hmain]
      refine ⟨?_, fun known hknown => ?_, ?_⟩
      · rw [heq]
        refine hcourse.concat ?_ ?_ ?_ fun _ _ => nofun
        · rfl
        · rfl
        · rfl
      · rw [heq]
        exact hknown
      · rw [heq]
        trivial
  | call op next =>
      have hleads := hcourse.leads
      rw [hmain] at hleads
      have hwrite (path data : Bytes) (len : Nat) (hop : op = .luaFsWriteFile path data len) :
          d.mounted b.host.store = true ∧ len ≤ data.length := by
        subst hop
        rw [hcourse.mounted]
        exact main_writes hleads
      obtain ⟨hmounted, hlearned, hanswer⟩ := perform_spec core enough hd b.host.store hwrite
      have heq : d.step cfg core img b .main = (.asked ⟨op, (d.perform b.host.store op).1.1⟩
          (d.perform b.host.store op).1.2.1 (d.perform b.host.store op).1.2.2,
          ⟨{ b.host with store := (d.perform b.host.store op).2 },
            next (d.perform b.host.store op).1.1⟩) := by
        simp only [Device.step, hmain]
      have hasked (left : Option FileContents) (refused : Bool) :
          asked (entries ++ [(.main, .asked ⟨op, (d.perform b.host.store op).1.1⟩ left refused)]) =
            asked entries ++ [⟨op, (d.perform b.host.store op).1.1⟩] := asked_concat _
      refine ⟨?_, ?_, ?_⟩
      · rw [heq]
        refine ⟨?_, ?_, fun h x hx a => ?_⟩
        · exact (congrArg (Prog.Leads _ · _) (hasked _ _)).mpr (hleads.concat _)
        · refine hmounted.trans ?_
          have hany := congrArg (List.any · mounts) (hasked
            (d.perform b.host.store op).1.2.1 (d.perform b.host.store op).1.2.2)
          simp only [List.any_append, List.any_cons, List.any_nil, Bool.or_false,
            ← hcourse.mounted] at hany
          exact hany.symm
        · obtain hx | hx := List.mem_append.mp hx
          · have hbefore : d.mounted b.host.store = false :=
              (Bool.or_eq_false_iff.mp (hmounted.symm.trans h)).1
            exact hcourse.answered hbefore x hx a
          · obtain rfl := List.mem_singleton.mp hx
            exact nofun
      · rw [heq]
        exact hlearned
      · rw [heq]
        exact hanswer

theorem eventStep (hd : d.Documented) (hcourse : Course d cfg.mountPoint img entries b)
    {e : Event} (hok : e.Ok cfg enough b) : EventStep d cfg core img enough entries b e := by
  cases e with
  | boot thread =>
      refine ⟨booted_course hd b.host.store thread, fun known hknown => ?_, trivial⟩
      change Agrees known (d.flash (d.reboot b.host.store))
      rw [hd.reboot_flash]
      exact hknown
  | main => exact eventStep_main hd hcourse
  | call c => exact eventStep_call hd hcourse hok.1 hok.2

end Step

section Deployed

variable {mountPoint : Bytes} {img : Images} {history : List (Event × Answer)}

/-- A call of `main` that leaves this file as it is. -/
def Spares (path : Bytes) : BootOp → Prop
  | .luaFsWriteFile file _ _ => file ≠ path
  | .printk _ => True
  | _ => False

/-- Behind the call that writes a file, `main` writes only others. -/
theorem bootstrapAsked_split (r₁ r₂ r₃ : LuaInteger) {path data : Bytes}
    (hfile : (path, data) ∈ img.deployed) :
    ∃ first data' len r second, bootstrapAsked img r₁ r₂ r₃ =
        first ++ ⟨.luaFsWriteFile path data' len, r⟩ :: second ∧
      requestedBytes data' len = data ∧ ∀ y ∈ second, Spares path y.1 := by
  obtain heq | hmem := List.mem_cons.mp hfile
  · obtain ⟨rfl, rfl⟩ := Prod.mk.inj heq
    refine ⟨[_], _, _, r₁, [_, _, _], rfl, rfl, ?_⟩
    rintro y hy
    simp only [List.mem_cons, List.not_mem_nil, or_false] at hy
    obtain rfl | rfl | rfl := hy
    · exact show ascii "/lfs/greet.lua" ≠ ascii "/lfs/hello_fs.lua" by decide
    · exact show ascii "/lfs/info.lua" ≠ ascii "/lfs/hello_fs.lua" by decide
    · trivial
  obtain heq | hmem := List.mem_cons.mp hmem
  · obtain ⟨rfl, rfl⟩ := Prod.mk.inj heq
    refine ⟨[_, _], _, _, r₂, [_, _], rfl, rfl, ?_⟩
    rintro y hy
    simp only [List.mem_cons, List.not_mem_nil, or_false] at hy
    obtain rfl | rfl := hy
    · exact show ascii "/lfs/info.lua" ≠ ascii "/lfs/greet.lua" by decide
    · trivial
  · obtain ⟨rfl, rfl⟩ := Prod.mk.inj (List.mem_singleton.mp hmem)
    refine ⟨[_, _, _], _, _, r₃, [_], rfl, rfl, ?_⟩
    rintro y hy
    obtain rfl := List.mem_singleton.mp hy
    trivial

/-- With this entry `main` has written the file. -/
def Saves (x : Event × Answer) (file : Bytes × Bytes) : Prop :=
  ∃ data len r, askedOf x = some ⟨.luaFsWriteFile file.1 data len, r⟩ ∧
    requestedBytes data len = file.2

/-- Of a file that the call of `main`, if any, spares, an entry tells only what a call from
elsewhere does. -/
theorem learn_of_spares {path : Bytes} {x : Event × Answer}
    (h : ∀ y, askedOf x = some y → Spares path y.1) {known known' : Known Bytes (Option Bytes)}
    (hknown : known path = known' path) :
    learn mountPoint known x path = learnCall mountPoint known' x path := by
  obtain ⟨e, _ | _ | ⟨⟨op, r⟩, left, refused⟩ | ⟨m, a⟩⟩ := x
  · cases e with
    | _ => exact hknown
  · cases e with
    | _ => exact hknown
  · have hspares : Spares path op := h ⟨op, r⟩ rfl
    cases op with
    | fsMount => exact hspares.elim
    | fsMkfs => exact hspares.elim
    | luaFsWriteFile file data len =>
        have hother (v : Option (Option Bytes)) :
            Function.update known file v path = known path :=
          Function.update_of_ne (Ne.symm hspares) _ _
        cases e with
        | _ => exact (hother _).trans hknown
    | printk text =>
        cases e with
        | _ => exact hknown
    | log level text => exact hspares.elim
  · cases e with
    | boot thread => exact hknown
    | main => exact hknown
    | call c =>
        cases m with
        | false => exact hknown
        | true =>
            change LuaZephyr.learn _ _ _ _ = LuaZephyr.learn _ _ _ _
            rw [learn_apply, learn_apply, hknown]

/-- A call that is not about a file tells nothing of it. -/
theorem learnCall_of_untouched {path : Bytes} {x : Event × Answer}
    (h : callTarget mountPoint x ≠ some path) (known : Known Bytes (Option Bytes)) :
    learnCall mountPoint known x path = known path := by
  obtain ⟨e, _ | _ | ⟨y, left, refused⟩ | ⟨m, a⟩⟩ := x
  · cases e with
    | _ => rfl
  · cases e with
    | _ => rfl
  · cases e with
    | _ => rfl
  · cases e with
    | boot thread => rfl
    | main => rfl
    | call c =>
        cases m with
        | false => rfl
        | true =>
            have huntouched : c.target mountPoint ≠ some path := h
            change LuaZephyr.learn _ _ _ _ = _
            rw [learn_apply]
            exact if_neg huntouched

/-- A file that was written without refusal is known. -/
theorem Saves.learn {x : Event × Answer} {file : Bytes × Bytes} (h : Saves x file)
    (hrefused : isRefused x = false) (known : Known Bytes (Option Bytes)) :
    learn mountPoint known x file.1 = knownOf file file.1 := by
  obtain ⟨data, len, r, hasked, hdata⟩ := h
  obtain ⟨e, _ | _ | ⟨y, left, refused⟩ | ⟨m, a⟩⟩ := x
  · contradiction
  · contradiction
  · obtain rfl := Option.some.inj hasked
    obtain rfl : refused = false := hrefused
    rw [knownOf, Function.update_self, ← hdata]
    exact Function.update_self ..
  · contradiction

/-- Once `main` has written a file, it writes only others. -/
theorem deployed_split {first : Asked} {r₁ r₂ r₃ : LuaInteger}
    (hasked : asked history = first ++ bootstrapAsked img r₁ r₂ r₃) {file : Bytes × Bytes}
    (hfile : file ∈ img.deployed) :
    ∃ earlier x later, history = earlier ++ x :: later ∧ Saves x file ∧
      ∀ y ∈ later, ∀ z, askedOf y = some z → Spares file.1 z.1 := by
  obtain ⟨before, data, len, r, after, hsplit, hdata, hafter⟩ :=
    bootstrapAsked_split r₁ r₂ r₃ hfile
  rw [hsplit, ← List.append_assoc] at hasked
  obtain ⟨earlier, rest, rfl, -, hrest⟩ := List.filterMap_eq_append_iff.mp hasked
  obtain ⟨skipped, x, later, rfl, -, hx, hlater⟩ := List.filterMap_eq_cons_iff.mp hrest
  refine ⟨earlier ++ skipped, x, later, (List.append_assoc ..).symm, ⟨data, len, r, hx, hdata⟩,
    fun y hy z hz => ?_⟩
  refine hafter z ?_
  rw [← hlater]
  exact List.mem_filterMap.mpr ⟨y, hy, hz⟩

end Deployed

/-- What has come of the last start of the board, of which these are the entries. -/
structure Bootstrapped {β : Type} (d : Device β) (mountPoint : Bytes) (img : Images)
    (entries : List (Event × Answer)) (b : Board β) : Prop where
  formats : ∀ r, ⟨.fsMkfs, r⟩ ∈ asked entries →
    ∃ rc rest, asked entries = ⟨.fsMount, .error rc⟩ :: rest
  failed : ∀ rc, b.main = .done (.returned rc) → ∀ x ∈ entries, (∀ a, x.2 ≠ .answered true a) ∧
    ∀ path data len r, askedOf x ≠ some ⟨.luaFsWriteFile path data len, r⟩
  deployed : b.main = .done .asleep → d.mounted b.host.store = true ∧ ∀ file ∈ img.deployed,
    ∃ earlier x later, entries = earlier ++ x :: later ∧ Saves x file ∧ (isRefused x = false →
      ∀ data, knownAfter (learnCall mountPoint) (knownOf file) later file.1 = some data →
        d.files b file.1 = data)

section Runs

variable {β : Type} {d : Device β} {cfg : FsConfig} {core : LuaCore (β × Bool)} {img : Images}
  {enough : Prop} {store : β} {thread : Nat → State Unit} {events : List Event}

/-- The board keeps to its course from its start on, and from each later one. -/
theorem run_course (hd : d.Documented) (hall : AllSteps (d.step cfg core img)
    (fun b e => e.Ok cfg enough b) (d.booted cfg img store thread) events) :
    Course d cfg.mountPoint img
      (sinceBoot (run (d.step cfg core img) (d.booted cfg img store thread) events).1)
      (run (d.step cfg core img) (d.booted cfg img store thread) events).2 := by
  let Inv : List (Event × Answer) → Board β → Prop := fun history b =>
    Course d cfg.mountPoint img (sinceBoot history) b
  have hstep (history : List (Event × Answer)) (b : Board β) (e : Event)
      (hcourse : Inv history b) (hok : e.Ok cfg enough b) :
      Inv (history ++ [(e, (d.step cfg core img b e).1)]) (d.step cfg core img b e).2 := by
    have hnext : EventStep d cfg core img enough (sinceBoot history) b e :=
      eventStep hd hcourse hok
    change Course d _ _ (sinceBoot _) _
    rw [sinceBoot_concat]
    exact hnext.course
  have hstart : Inv [] (d.booted cfg img store thread) := booted_course hd store thread
  exact run_invariant hstep hstart hall

/-- The files, and the answers on the way. -/
theorem run_files (hd : d.Documented) (hall : AllSteps (d.step cfg core img)
    (fun b e => e.Ok cfg enough b) (d.booted cfg img store thread) events) :
    let r := run (d.step cfg core img) (d.booted cfg img store thread) events
    let known := knownAfter (learn cfg.mountPoint) (knownWhole (d.flash store))
    Agrees (known r.1) (d.files r.2) ∧
      EachAfter (fun before x => ∃ files, Agrees (known before) files ∧
        AnsweredFrom cfg core enough files x) r.1 := by
  have hstep (b : Board β) (e : Event)
      (hcourse : ∃ entries, Course d cfg.mountPoint img entries b) (hok : e.Ok cfg enough b) :
      (∃ entries, Course d cfg.mountPoint img entries (d.step cfg core img b e).2) ∧
        (∀ known, Agrees known (d.files b) →
          Agrees (learn cfg.mountPoint known (e, (d.step cfg core img b e).1))
            (d.files (d.step cfg core img b e).2)) ∧
        AnsweredFrom cfg core enough (d.files b) (e, (d.step cfg core img b e).1) := by
    obtain ⟨entries, hcourse⟩ := hcourse
    obtain ⟨hcourse', hlearned, hanswer⟩ := eventStep hd hcourse hok
    exact ⟨⟨_, hcourse'⟩, hlearned, hanswer⟩
  have hstart : Course d cfg.mountPoint img [] (d.booted cfg img store thread) :=
    booted_course hd store thread
  have hflash : d.files (d.booted cfg img store thread) = d.flash store := hd.reboot_flash store
  refine run_known d.files (fun b => ∃ entries, Course d cfg.mountPoint img entries b) hstep
    ⟨[], hstart⟩ ?_ hall
  rw [hflash]
  exact agrees_knownWhole _

theorem run_bootstrapped (hd : d.Documented) (hall : AllSteps (d.step cfg core img)
    (fun b e => e.Ok cfg enough b) (d.booted cfg img store thread) events) :
    Bootstrapped d cfg.mountPoint img
      (sinceBoot (run (d.step cfg core img) (d.booted cfg img store thread) events).1)
      (run (d.step cfg core img) (d.booted cfg img store thread) events).2 := by
  have hcourse := run_course hd hall
  have hfiles := (run_files hd hall).1
  refine ⟨?_, ?_, ?_⟩
  · exact fun _ hformat => main_formats hcourse.leads hformat
  · intro rc hmain x hx
    have hleads := hcourse.leads
    rw [hmain] at hleads
    obtain ⟨he, -⟩ | ⟨-, hunmounted, hunwritten⟩ := main_done hleads
    · contradiction
    · refine ⟨fun a => hcourse.answered (hcourse.mounted.trans hunmounted) x hx a, ?_⟩
      intro path data len rc' hasked
      exact hunwritten path data len rc' (List.mem_filterMap.mpr ⟨x, hx, hasked⟩)
  · intro hmain
    have hleads := hcourse.leads
    rw [hmain] at hleads
    obtain ⟨-, hmounted, first, r₁, r₂, r₃, hasked⟩ | ⟨⟨rc, he⟩, -⟩ := main_done hleads
    · refine ⟨hcourse.mounted.trans hmounted, fun file hfile => ?_⟩
      obtain ⟨earlier, x, later, hsplit, hx, hlater⟩ := deployed_split hasked hfile
      refine ⟨earlier, x, later, hsplit, hx, fun hrefused data hdata => ?_⟩
      obtain ⟨before, hbefore⟩ := exists_before_sinceBoot
        (run (d.step cfg core img) (d.booted cfg img store thread) events).1
      refine hfiles file.1 data ?_
      rw [hbefore, hsplit, ← List.append_assoc, knownAfter_append, knownAfter_cons]
      refine (knownAfter_congr (fun y hy known known' => ?_) (hx.learn hrefused _)).trans hdata
      exact learn_of_spares (hlater y hy)
    · contradiction

end Runs

/-- A flash that may not be formatted yet. Once it is mounted it has the ideal file system. -/
structure Flash where
  store : FileStore × FsMode
  formatted : Bool
  mounted : Bool

/-- No call is granted. -/
def refuse : (op : FileOp) → op.Reply
  | .stat _ => Except.error Errno.enoent
  | .open _ _ => Except.error Errno.enoent
  | .truncate _ => Except.error Errno.enoent
  | .read _ => Except.error Errno.enoent
  | .write _ => Except.error Errno.enoent
  | .close => Except.error Errno.enoent
  | .unlink _ => Except.error Errno.enoent

theorem granted_refuse (op : FileOp) : op.granted (refuse op) = false := by
  cases op with
  | _ => rfl

def flashDevice : Device Flash where
  volume := {
    serve op s :=
      if s.mounted then
        let r := FileStore.volume.serve op s.store
        (r.1, { s with store := r.2 })
      else (refuse op, s)
    view s := if s.mounted then s.store.1 else { s.store.1 with files := fun _ => none }
    mode s := s.store.2 }
  mounted := Flash.mounted
  flash s := s.store.1.files
  mount s := if s.formatted then (.ok ⟨⟩, { s with mounted := true }) else (.error .enoent, s)
  mkfs s := (.ok ⟨⟩, { s with store := (emptyStore, .read), formatted := true })
  reboot s := { s with mounted := false }

theorem flashDevice_volume : flashDevice.volume.Documented where
  granted op s hgranted := by
    obtain ⟨store, formatted, _ | _⟩ := s
    · exact Bool.noConfusion ((granted_refuse op).symm.trans hgranted)
    · rfl
  refused op s path hgranted h := by
    obtain ⟨store, formatted, _ | _⟩ := s
    · rfl
    · exact FileStore.volume_documented.refused op store path hgranted h
  absent path s hnone := by
    obtain ⟨store, formatted, _ | _⟩ := s
    · rfl
    · exact FileStore.volume_documented.absent path store hnone
  opened op s hgranted hclose := by
    obtain ⟨store, formatted, _ | _⟩ := s
    · rfl
    · exact FileStore.volume_documented.opened op store hgranted hclose
  mode op s := by
    obtain ⟨store, formatted, _ | _⟩ := s
    · change store.2 = op.modeAfter store.2 (op.granted (refuse op))
      rw [granted_refuse]
      cases op with
      | _ => rfl
    · rfl

theorem flashDevice_documented : flashDevice.Documented where
  volume := flashDevice_volume
  view s := by
    obtain ⟨store, formatted, _ | _⟩ := s
    · rfl
    · rfl
  serve_mounted op s := by
    obtain ⟨store, formatted, _ | _⟩ := s
    · rfl
    · rfl
  serve_flash op s hunmounted := by
    obtain ⟨store, formatted, _ | _⟩ := s
    · rfl
    · contradiction
  mount s := by
    obtain ⟨store, _ | _, _ | _⟩ := s
    · rfl
    · rfl
    · rfl
    · rfl
  mkfs s := rfl
  mkfs_flash s _ := rfl
  reboot s := rfl
  reboot_flash s := rfl

/-- `main` finds no volume, makes one and writes its files; a thread loads one. -/
def firstBoot : List Event :=
  List.replicate 10 .main ++ [.call (.load 0 (ascii "greet.lua"))]

def sampleConfig : FsConfig := ⟨ascii "/lfs", 1024⟩

/-- A core that compiles every chunk to the same function. -/
def sampleCore : LuaCore (Flash × Bool) :=
  ⟨fun _ _ => .ok 7, fun _ heap store => (.ok [], heap, store)⟩

def bareFlash : Flash := ⟨(emptyStore, .read), false, false⟩

/-- A script that comes through the generator and the compiler as it is, and has no NUL. -/
structure Plain (file : List Char) : Prop where
  backslash : '\\' ∉ universalNewlines file
  boundary : ∀ c ∈ universalNewlines file, isLineBoundary c = true → c = '\n'
  nul : '\x00' ∉ universalNewlines file
  comment : ¬ ['*', '/'] <:+: universalNewlines file

theorem zero_not_mem_utf8 {text : List Char} (h : '\x00' ∉ text) : 0 ∉ utf8 text := by
  intro hzero
  obtain ⟨v, w, hbytes⟩ := List.append_of_mem hzero
  obtain ⟨first, c, second, rfl, -, hc, -⟩ := utf8_split (by decide) hbytes
  obtain rfl : c = '\x00' := eq_of_encode (by decide) hc
  simp at h

theorem zero_not_mem_echo {fresh : Bool} {text : List Char} (h : '\x00' ∉ text) :
    0 ∉ echo fresh text := by
  induction text generalizing fresh with
  | nil =>
      cases fresh with
      | _ => decide
  | cons c text ih =>
      obtain ⟨hc, htext⟩ := not_or.mp (List.mem_cons.not.mp h)
      have hchar : 0 ∉ String.utf8EncodeChar c := by
        have hsingle : 0 ∉ utf8 [c] := zero_not_mem_utf8 (List.mem_singleton.not.mpr hc)
        simpa [utf8] using hsingle
      rw [echo_cons]
      intro hzero
      obtain hspace | hrest := List.mem_append.mp hzero
      · cases fresh with
        | true => exact absurd hspace (by decide)
        | false => contradiction
      · split at hrest
        · obtain hnewline | hrest := List.mem_cons.mp hrest
          · contradiction
          · exact ih htext hrest
        · obtain hchar' | hrest := List.mem_append.mp hrest
          · exact hchar hchar'
          · exact ih htext hrest

/-- The string literals of a file, as they are spelled. -/
def literals (ls : List (Lexeme (Option Nat))) : List (List Char) :=
  ls.filterMap fun l =>
    match l.kind with
    | .literal quote spelling => if quote = '"' then some spelling else none
    | _ => none

/-- The array is what the compiler makes of the one string literal of the header that is
generated for the script. -/
def HeaderArray (name file : List Char) (array : Bytes) : Prop :=
  ∃ ls spelling text, lex (templateH.generated name file) = some ls ∧ literals ls = [spelling] ∧
    value spelling = some text ∧ array = text ++ [0]

/-- The template for this name has one string literal, which holds the placeholder. -/
def OneLiteral (name : List Char) : Prop :=
  (lex (mark 0 (withNames templateH.text name))).map literals = some [Placeholder.luaContent.text]

theorem oneLiteral_helloFs : OneLiteral (chars "hello_fs") := by
  unfold OneLiteral
  decide +kernel

theorem oneLiteral_greet : OneLiteral (chars "greet") := by
  unfold OneLiteral
  decide +kernel

section Header

variable {name file : List Char}

/-- The literal of the header for a plain script is the script's. -/
theorem Plain.literals (h : Plain file) (hname : ∀ c ∈ name, isWordChar c = true)
    (hone : OneLiteral name) : ∃ ls, lex (templateH.generated name file) = some ls ∧
      LittleFs.literals ls = [inside file] := by
  have hquotes : EvenBackslashes (universalNewlines file) := by
    rw [evenBackslashes_iff]
    exact quotesHold_of_plain h.backslash
  obtain ⟨before, first, last, after, htemplate, hgenerated⟩ :=
    lex_generated templateH hname h.comment hquotes
  refine ⟨_, hgenerated, ?_⟩
  have hsplit (spelling : List Char) :
      LittleFs.literals (before ++ ⟨.literal '"' spelling, first, last⟩ :: after) =
        LittleFs.literals before ++ spelling :: LittleFs.literals after :=
    List.filterMap_append
  rw [OneLiteral, htemplate, Option.map_some, hsplit] at hone
  obtain ⟨hbefore, hafter⟩ | ⟨-, hnone⟩ :=
    List.append_eq_singleton_iff.mp (Option.some.inj hone)
  · rw [hsplit, hbefore, (List.cons.inj hafter).2]
    rfl
  · contradiction

/-- A plain script is read as it is. -/
theorem Plain.value_inside (h : Plain file) : value (inside file) = some (scriptValue file) := by
  have hquotes := quotesHold_of_plain h.backslash
  rw [scriptValue_eq]
  exact (value_insideFrom_iff hquotes).mpr ⟨h.backslash, h.boundary⟩

/-- The array has the script, and `lua_fs_write_file` writes it all. -/
theorem Plain.written (h : Plain file) (hname : ∀ c ∈ name, isWordChar c = true)
    (hone : OneLiteral name) {array : Bytes} (harray : HeaderArray name file array) :
    requestedBytes array 0 = scriptValue file := by
  obtain ⟨ls, spelling, text, hlex, hliterals, htext, rfl⟩ := harray
  obtain ⟨ls', hlex', hliterals'⟩ := h.literals hname hone
  obtain rfl := Option.some.inj (hlex.symm.trans hlex')
  obtain ⟨rfl, -⟩ := List.cons.inj (hliterals.symm.trans hliterals')
  obtain rfl := Option.some.inj (htext.symm.trans h.value_inside)
  have hnul : 0 ∉ scriptValue file := by
    rw [scriptValue_eq]
    exact zero_not_mem_echo h.nul
  have hread : CString.text (scriptValue file ++ [0]) = _ := CString.text_append hnul [0]
  rw [requestedBytes, if_pos rfl, hread]
  simp [CString.text]

theorem Plain.headerArray (h : Plain file) (hname : ∀ c ∈ name, isWordChar c = true)
    (hone : OneLiteral name) : HeaderArray name file (scriptValue file ++ [0]) := by
  obtain ⟨ls, hlex, hliterals⟩ := h.literals hname hone
  exact ⟨ls, inside file, _, hlex, hliterals, h.value_inside, rfl⟩

end Header

/-- The scripts of the sample, and the bytecode of `info.lua`. -/
structure Sources where
  helloFs : List Char
  greet : List Char
  info : Bytes

/-- The files as the sample means them. -/
def Sources.deployed (src : Sources) : List (Bytes × Bytes) :=
  [(ascii "/lfs/hello_fs.lua", scriptValue src.helloFs),
    (ascii "/lfs/greet.lua", scriptValue src.greet), (ascii "/lfs/info.lua", src.info)]

/-- The array that the header for this bytecode declares. -/
def declaredArray (data : Bytes) : List Char :=
  '{' :: ' ' :: (bytecodeTexts data).2 ++ [' ', '}']

/-- The arrays are what the compiler makes of the headers for these sources. -/
structure Embeds (src : Sources) (img : Images) : Prop where
  helloFs : Plain src.helloFs ∧ HeaderArray (chars "hello_fs") src.helloFs img.helloFsLuaScript
  greet : Plain src.greet ∧ HeaderArray (chars "greet") src.greet img.greetLuaScript
  info : src.info ≠ [] ∧
    initialiser (declaredArray src.info) = some (img.infoLuaBytecode.map UInt8.toNat)

theorem helloFs_word : ∀ c ∈ chars "hello_fs", isWordChar c = true :=
  List.forall_iff_forall_mem.mp (by decide)

theorem greet_word : ∀ c ∈ chars "greet", isWordChar c = true :=
  List.forall_iff_forall_mem.mp (by decide)

theorem Embeds.deployed {src : Sources} {img : Images} (h : Embeds src img) :
    img.deployed = src.deployed := by
  obtain ⟨hhello, harray⟩ := h.helloFs
  obtain ⟨hgreet, harray'⟩ := h.greet
  obtain ⟨hne, hinfo⟩ := h.info
  rw [declaredArray, initialiser_hexBytes, Option.some.injEq] at hinfo
  have hbytes : src.info = img.infoLuaBytecode :=
    List.map_injective_iff.mpr (fun _ _ => UInt8.toNat_inj.mp) hinfo
  have hlength : src.info.length ≠ 0 := fun hzero => hne (List.eq_nil_of_length_eq_zero hzero)
  have hwhole : requestedBytes src.info src.info.length = src.info := by
    rw [requestedBytes, if_neg hlength, List.take_length]
  rw [Images.deployed, Sources.deployed, hhello.written helloFs_word oneLiteral_helloFs harray,
    hgreet.written greet_word oneLiteral_greet harray', ← hbytes, hwhole]

/-- The scripts as they are in the repository, with a short one in the place of the first. -/
def sampleSources : Sources where
  helloFs := chars "dofile(\"greet.lua\")\n"
  greet := chars "local zephyr = require(\"zephyr\")\n" ++
    chars "zephyr.printk(\"Greetings from greet.lua!\")\n"
  info := ascii "\x1bLua"

def sampleImages : Images where
  helloFsLuaScript := scriptValue sampleSources.helloFs ++ [0]
  greetLuaScript := scriptValue sampleSources.greet ++ [0]
  infoLuaBytecode := sampleSources.info

theorem sampleImages_embeds : Embeds sampleSources sampleImages := by
  have hhello : Plain sampleSources.helloFs :=
    ⟨by decide, List.forall_iff_forall_mem.mp (by decide), by decide, by decide +kernel⟩
  have hgreet : Plain sampleSources.greet :=
    ⟨by decide, List.forall_iff_forall_mem.mp (by decide), by decide, by decide +kernel⟩
  refine ⟨⟨hhello, hhello.headerArray helloFs_word oneLiteral_helloFs⟩,
    ⟨hgreet, hgreet.headerArray greet_word oneLiteral_greet⟩, by decide, ?_⟩
  exact initialiser_hexBytes _

end LittleFs

end LuaZephyr
