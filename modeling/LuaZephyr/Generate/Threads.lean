import LuaZephyr.Generate.LuazGen
import LuaZephyr.Library.CMake

/-!
# Defining and generating threads

The two halves of `luaz.cmake`: the macros that define a thread keep its path and write its
Kconfig fragment, and `luaz_generate_threads` goes through the paths. All files and symbols
of a thread are named after its script.

Lists are lists of texts here, not strings with semicolons, and each has what was put into it in
that order. When CMake writes a file again, and how the generated files are compiled, is not
modelled; neither are the generators that run when the commands are built.
-/

namespace LuaZephyr

open PyText CMake

/-- The variables of the build that are used. -/
structure BuildVars where
  binaryDir : List Char
  currentBinaryDir : List Char
  luaPrecompile : Bool

/-- An entry `config …` of type int. -/
structure KconfigEntry where
  symbol : List Char
  prompt : List Char
  default : List Char
  help : List Char
  deriving DecidableEq

/-- What `_luaz_write_thread_kconfig` writes. -/
structure ThreadKconfig where
  symbolPrefix : List Char
  entries : List KconfigEntry
  deriving DecidableEq

/-- The variables and files of a build while its CMake code runs, the oldest first where
they are lists. -/
structure Build where
  luazSourceThreads : List (List Char)
  luazBytecodeThreads : List (List Char)
  luazFsThreads : List (List Char)
  kconfigs : List ThreadKconfig
  /-- What `configure_file` was called for. -/
  configured : List (List Char)
  /-- The outputs of custom commands. -/
  commands : List (List Char)
  /-- The sources of the target `app`. -/
  appSources : List (List Char)
  /-- The files that CMake wrote itself. -/
  files : List Char → Option (List Char)

def Build.start : Build := ⟨[], [], [], [], [], [], [], fun _ => none⟩

/-- Write a file, over what it held. -/
def Build.write (b : Build) (file text : List Char) : Build :=
  { b with files := Function.update b.files file (some text) }

/-- `cmake_path(GET … FILENAME …)` and `cmake_path(REMOVE_EXTENSION …)`. -/
def threadName (path : List Char) : List Char := removeExtension (filename path)

def KconfigEntry.text (e : KconfigEntry) : List Char :=
  chars "config " ++ e.symbol ++ chars "\n    int \"" ++ e.prompt ++ chars "\"\n    default " ++
    e.default ++ chars "\n    help\n      " ++ e.help ++ chars "\n"

/-- The fragment of a thread. -/
def threadKconfig (name : List Char) : ThreadKconfig where
  symbolPrefix := toupper name
  entries :=
    [⟨toupper name ++ chars "_LUA_THREAD_STACK_SIZE", name ++ chars " Lua thread stack size",
        chars "LUA_THREAD_STACK_SIZE", chars "Stack size for the " ++ name ++ chars " Lua thread."⟩,
      ⟨toupper name ++ chars "_LUA_THREAD_HEAP_SIZE", name ++ chars " Lua thread heap size",
        chars "LUA_THREAD_HEAP_SIZE", chars "Heap size for the " ++ name ++ chars " Lua thread."⟩,
      ⟨toupper name ++ chars "_LUA_THREAD_PRIORITY", name ++ chars " Lua thread priority",
        chars "LUA_THREAD_PRIORITY", chars "Priority for the " ++ name ++ chars " Lua thread."⟩]

/-- `_luaz_write_thread_kconfig`. -/
def luazWriteThreadKconfig (vars : BuildVars) (name : List Char) (b : Build) : Build :=
  let b := b.write (vars.binaryDir ++ chars "/Kconfig/Kconfig.lua_thread." ++ name)
    (join (chars "\n") ((threadKconfig name).entries.map KconfigEntry.text))
  { b with kconfigs := b.kconfigs ++ [threadKconfig name] }

def luazDefineSourceThread (vars : BuildVars) (path : List Char) (b : Build) : Build :=
  luazWriteThreadKconfig vars (threadName path)
    { b with luazSourceThreads := b.luazSourceThreads ++ [path] }

def luazDefineBytecodeThread (vars : BuildVars) (path : List Char) (b : Build) : Build :=
  luazWriteThreadKconfig vars (threadName path)
    { b with luazBytecodeThreads := b.luazBytecodeThreads ++ [path] }

def luazDefineFsThread (vars : BuildVars) (path : List Char) (b : Build) : Build :=
  luazWriteThreadKconfig vars (threadName path)
    { b with luazFsThreads := b.luazFsThreads ++ [path] }

/-- `lua_fs_thread.c.in`. -/
def luaFsThreadC : List (List Char) := [
    chars "/**",
    chars " * @file lua_fs_thread.c.in",
    chars " * @brief CMake configure_file template for generating FS-backed " ++
      chars "Lua thread source files.",
    chars " *",
    chars " * Placeholders @FILE_NAME@ and @LUA_FS_PATH@ are substituted by CMake's",
    chars " * configure_file when luaz_add_fs_thread() is called from lua.cmake.",
    chars " * The generated file creates a Zephyr thread with its own sys_heap,",
    chars " * Lua state, and loads a Lua script from the filesystem at runtime.",
    chars " */",
    chars "",
    chars "/* clang-format off */",
    chars "",
    chars "#include <lua.h>",
    chars "#include <lauxlib.h>",
    chars "#include <lualib.h>",
    chars "#include <luaz_utils.h>",
    chars "#include <luaz_fs.h>",
    chars "#include <zephyr/kernel.h>",
    chars "",
    chars "#ifndef CONFIG_@FILE_NAME_UPPER@_LUA_THREAD_STACK_SIZE",
    chars "#define CONFIG_@FILE_NAME_UPPER@_LUA_THREAD_STACK_SIZE CONFIG_LUA_THREAD_STACK_SIZE",
    chars "#endif",
    chars "#ifndef CONFIG_@FILE_NAME_UPPER@_LUA_THREAD_HEAP_SIZE",
    chars "#define CONFIG_@FILE_NAME_UPPER@_LUA_THREAD_HEAP_SIZE CONFIG_LUA_THREAD_HEAP_SIZE",
    chars "#endif",
    chars "#ifndef CONFIG_@FILE_NAME_UPPER@_LUA_THREAD_PRIORITY",
    chars "#define CONFIG_@FILE_NAME_UPPER@_LUA_THREAD_PRIORITY CONFIG_LUA_THREAD_PRIORITY",
    chars "#endif",
    chars "",
    chars "static char heap_mem[CONFIG_@FILE_NAME_UPPER@_LUA_THREAD_HEAP_SIZE];",
    chars "static struct sys_heap lua_heap;",
    chars "static const char @FILE_NAME@_script_path[] = \"@LUA_FS_PATH@\";",
    chars "",
    chars "/**",
    chars " * @brief Weak setup hook called before the Lua script executes.",
    chars " *",
    chars " * Override this function to load libraries, declare zbus channels/observers,",
    chars " * or perform any per-thread Lua state initialization.",
    chars " *",
    chars " * @param L  Lua state for this thread.",
    chars " * @return 0 on success, non-zero to abort script execution.",
    chars " */",
    chars "int __weak @FILE_NAME@_lua_setup(lua_State *L)",
    chars "\x7b",
    chars "    ARG_UNUSED(L);",
    chars "",
    chars "\treturn 0;",
    chars "\x7d",
    chars "",
    chars "/** @brief Thread entry point: init heap, create Lua state, and run script from FS. */",
    chars "static void @FILE_NAME@_lua_thread(void*p1, void*p2, void*p3)",
    chars "\x7b",
    chars "    ARG_UNUSED(p1);",
    chars "    ARG_UNUSED(p2);",
    chars "    ARG_UNUSED(p3);",
    chars "",
    chars "\tsys_heap_init(&lua_heap, heap_mem, CONFIG_@FILE_NAME_UPPER@_LUA_THREAD_HEAP_SIZE);",
    chars "",
    chars "\tlua_State *L = lua_newstate(lua_zephyr_allocator, &lua_heap, 0);",
    chars "\tluaz_openlibs(L);",
    chars "",
    chars "    int err = @FILE_NAME@_lua_setup(L);",
    chars "    if(err) \x7b",
    chars "        lua_close(L);",
    chars "        __ASSERT(false, \"Setup required to be successful\");",
    chars "        return;",
    chars "    \x7d",
    chars "",
    chars "\terr = lua_fs_dofile(L, @FILE_NAME@_script_path);",
    chars "\tif (err != 0) \x7b",
    chars "\t\tif (lua_isstring(L, -1)) \x7b",
    chars "\t\t\tprintk(\"Lua error: %s\\n\", lua_tostring(L, -1));",
    chars "\t\t\x7d else \x7b",
    chars "\t\t\tprintk(\"Lua FS error: %d\\n\", err);",
    chars "\t\t\x7d",
    chars "\t\tlua_settop(L, 0);",
    chars "\t\x7d",
    chars "",
    chars "\tlua_close(L);",
    chars "",
    chars "\tluaz_print_mem_usage(&lua_heap, CONFIG_@FILE_NAME_UPPER@_LUA_THREAD_HEAP_SIZE);",
    chars "\x7d",
    chars "",
    chars "K_THREAD_DEFINE(@FILE_NAME@_lua_thread_id, " ++
      chars "CONFIG_@FILE_NAME_UPPER@_LUA_THREAD_STACK_SIZE, @FILE_NAME@_lua_thread, NULL, " ++
      chars "NULL, NULL, CONFIG_@FILE_NAME_UPPER@_LUA_THREAD_PRIORITY, 0, 0);",
    chars "",
    chars "/* clang-format on */"]

/-- Where the generated file of a thread is. -/
def luaOutput (vars : BuildVars) (path suffix : List Char) : List Char :=
  vars.currentBinaryDir ++ chars "/lua/" ++ threadName path ++ suffix

/-- A custom command runs `luaz_gen.py` when the target is built. -/
def addCommand (output : List Char) (b : Build) : Build :=
  { b with commands := b.commands ++ [output], appSources := b.appSources ++ [output] }

def luazAddThread (vars : BuildVars) (path : List Char) (b : Build) : Build :=
  addCommand (luaOutput vars path (chars "_lua_thread.c")) b

/-- `message(FATAL_ERROR …)` ends the run. -/
def luazAddBytecodeThread (vars : BuildVars) (path : List Char) (b : Build) :
    Except (List Char) Build :=
  if vars.luaPrecompile then
    .ok (addCommand (luaOutput vars path (chars "_lua_bytecode_thread.c")) b)
  else
    .error (chars "luaz_add_bytecode_thread(" ++ path ++
      chars ") requires CONFIG_LUA_PRECOMPILE=y. " ++
      chars "Enable it in your prj.conf to use bytecode pre-compilation.")

/-- The values of the variables when `configure_file` is called. -/
def fsThreadVariables (path name : List Char) : List Char :=
  if name = chars "FILE_NAME" then threadName path
  else if name = chars "FILE_NAME_UPPER" then toupper (threadName path)
  else if name = chars "LUA_FS_PATH" then path
  else []

def fsOutput (vars : BuildVars) (path : List Char) : List Char :=
  luaOutput vars path (chars "_lua_fs_thread.c")

def fsThreadText (path : List Char) : List Char :=
  configure (fsThreadVariables path) (fileText luaFsThreadC)

def luazAddFsThread (vars : BuildVars) (path : List Char) (b : Build) : Build :=
  let b := b.write (fsOutput vars path) (fsThreadText path)
  { b with
    configured := b.configured ++ [fsOutput vars path]
    appSources := b.appSources ++ [fsOutput vars path] }

def luazGenerateThreads (vars : BuildVars) (b : Build) : Except (List Char) Build := do
  let b := b.luazSourceThreads.foldl (fun b path => luazAddThread vars path b) b
  let b ← b.luazBytecodeThreads.foldlM (fun b path => luazAddBytecodeThread vars path b) b
  return b.luazFsThreads.foldl (fun b path => luazAddFsThread vars path b) b

inductive ThreadKind where
  | source
  | bytecode
  | fs
  deriving DecidableEq, Repr

/-- CMake does not take the character for a part of a list, an escape or a variable. -/
def isPlain (c : Char) : Bool := c ∉ [';', '\\', '$', '[', ']']

/-- The path of a script. -/
structure ScriptPath where
  text : List Char
  nonempty : text ≠ []
  plain : text.all isPlain = true
  deriving DecidableEq

/-- A call of one of the three macros. -/
structure ThreadDefinition where
  kind : ThreadKind
  path : ScriptPath
  deriving DecidableEq

def luazDefineThread (vars : BuildVars) (d : ThreadDefinition) : Build → Build :=
  match d.kind with
  | .source => luazDefineSourceThread vars d.path.text
  | .bytecode => luazDefineBytecodeThread vars d.path.text
  | .fs => luazDefineFsThread vars d.path.text

def defineThreads (vars : BuildVars) (defs : List ThreadDefinition) (b : Build) : Build :=
  defs.foldl (fun b d => luazDefineThread vars d b) b

/-- The paths given to `luaz_define_fs_thread`. -/
def fsPaths (defs : List ThreadDefinition) : List (List Char) :=
  (defs.filter fun d => d.kind = .fs).map fun d => d.path.text

/-- A text that holds the literal of the path. -/
def EmbedsPath (path text : List Char) : Prop :=
  chars "_script_path[] = \"" ++ path ++ chars "\";" <:+: text

/-- No thread is lost: there is a generated file for each path that embeds it, and each
thread has its own settings. -/
structure KeepsThreads (paths : List (List Char)) (b : Build) : Prop where
  apart : b.configured.Nodup
  embedded : List.Forall₂ (fun path file => ∃ text, b.files file = some text ∧
    EmbedsPath path text) paths b.configured
  settings : b.kconfigs.Pairwise fun k k' => k.symbolPrefix ≠ k'.symbolPrefix ∧
    ∀ e ∈ k.entries, ∀ e' ∈ k'.entries, e.symbol ≠ e'.symbol

/-- Without directories and extensions the paths differ at most in upper and lower case. -/
def SameScript (path path' : List Char) : Prop :=
  ∃ name name', IsName path name ∧ IsName path' name' ∧ toupper name = toupper name'

theorem sameScript_iff {path path' : List Char} :
    SameScript path path' ↔ toupper (threadName path) = toupper (threadName path') := by
  constructor
  · rintro ⟨name, name', hname, hname', hsame⟩
    rwa [threadName, threadName, isName_iff.mp hname, isName_iff.mp hname']
  · exact fun h => ⟨_, _, isName_iff.mpr rfl, isName_iff.mpr rfl, h⟩

theorem fsOutput_inj {vars : BuildVars} {path path' : List Char} :
    fsOutput vars path = fsOutput vars path' ↔ threadName path = threadName path' := by
  unfold fsOutput luaOutput
  rw [List.append_left_inj, List.append_right_inj]

/-- The line of the template with the path. -/
theorem embedsPath_fsThreadText (path : List Char) : EmbedsPath path (fsThreadText path) := by
  let line := chars "static const char @FILE_NAME@_script_path[] = \"@LUA_FS_PATH@\";"
  have hline : configure (fsThreadVariables path) line = chars "static const char " ++
      (threadName path ++ (chars "_script_path[] = \"" ++ (path ++ chars "\";"))) := rfl
  have hmem : line ∈ luaFsThreadC := by decide +kernel
  have hinfix : configure (fsThreadVariables path) line ++ ['\n'] <:+:
      ((luaFsThreadC.map (configure (fsThreadVariables path))).map (· ++ ['\n'])).flatten :=
    List.infix_of_mem_flatten (List.mem_map_of_mem (List.mem_map_of_mem hmem))
  unfold EmbedsPath fsThreadText fileText
  rw [configure_lines, List.flatMap_def]
  refine List.IsInfix.trans ⟨chars "static const char " ++ threadName path, ['\n'], ?_⟩ hinfix
  rw [hline]
  simp only [List.append_assoc]

/-- The ends of the three symbols of a thread. -/
def settingSuffixes : List (List Char) :=
  [chars "_LUA_THREAD_STACK_SIZE", chars "_LUA_THREAD_HEAP_SIZE", chars "_LUA_THREAD_PRIORITY"]

theorem exists_suffix {name : List Char} {e : KconfigEntry}
    (he : e ∈ (threadKconfig name).entries) :
    ∃ suffix ∈ settingSuffixes, e.symbol = toupper name ++ suffix := by
  simp only [threadKconfig, List.mem_cons, List.not_mem_nil, or_false] at he
  obtain rfl | rfl | rfl := he
  · exact ⟨_, List.mem_cons_self, rfl⟩
  · exact ⟨_, List.mem_cons_of_mem _ List.mem_cons_self, rfl⟩
  · exact ⟨_, List.mem_cons_of_mem _ (List.mem_cons_of_mem _ List.mem_cons_self), rfl⟩

/-- None of these ends is the end of another. -/
theorem suffix_unique {s s' : List Char} (hs : s ∈ settingSuffixes) (hs' : s' ∈ settingSuffixes)
    (h : s <:+ s') : s = s' := by
  have hall : ∀ s ∈ settingSuffixes, ∀ s' ∈ settingSuffixes, s <:+ s' → s = s' := by
    decide +kernel
  exact hall s hs s' hs' h

/-- Threads with different prefixes share no symbol. -/
theorem symbols_apart {name name' : List Char} (h : toupper name ≠ toupper name')
    {e e' : KconfigEntry} (he : e ∈ (threadKconfig name).entries)
    (he' : e' ∈ (threadKconfig name').entries) : e.symbol ≠ e'.symbol := by
  obtain ⟨s, hs, hsymbol⟩ := exists_suffix he
  obtain ⟨s', hs', hsymbol'⟩ := exists_suffix he'
  rw [hsymbol, hsymbol']
  intro heq
  have hend : s <:+ toupper name' ++ s' := heq ▸ List.suffix_append _ _
  have hsame : s = s' := by
    obtain hsuffix | hsuffix := List.suffix_or_suffix_of_suffix hend (List.suffix_append _ _)
    · exact suffix_unique hs hs' hsuffix
    · exact (suffix_unique hs' hs hsuffix).symm
  rw [hsame, List.append_left_inj] at heq
  exact h heq

variable {vars : BuildVars}

/-- The definitions keep the paths and write a fragment each. -/
theorem defineThreads_spec (vars : BuildVars) (defs : List ThreadDefinition) (b : Build) :
    (defineThreads vars defs b).luazFsThreads = b.luazFsThreads ++ fsPaths defs ∧
    (defineThreads vars defs b).kconfigs =
      b.kconfigs ++ defs.map (fun d => threadKconfig (threadName d.path.text)) ∧
    (defineThreads vars defs b).configured = b.configured := by
  induction defs generalizing b with
  | nil => exact ⟨(List.append_nil _).symm, (List.append_nil _).symm, rfl⟩
  | cons d defs ih =>
      obtain ⟨hpaths, hkconfigs, hconfigured⟩ := ih (luazDefineThread vars d b)
      obtain ⟨kind, path⟩ := d
      refine ⟨hpaths.trans ?_, hkconfigs.trans ?_, hconfigured.trans ?_⟩
      · cases kind with
        | source => rfl
        | bytecode => rfl
        | fs => exact List.append_assoc _ _ _
      · cases kind with
        | source => exact List.append_assoc _ _ _
        | bytecode => exact List.append_assoc _ _ _
        | fs => exact List.append_assoc _ _ _
      · cases kind with
        | source => rfl
        | bytecode => rfl
        | fs => rfl

/-- The part of a build that custom commands leave as it is. -/
structure Build.Alike (b b' : Build) : Prop where
  luazBytecodeThreads : b'.luazBytecodeThreads = b.luazBytecodeThreads
  luazFsThreads : b'.luazFsThreads = b.luazFsThreads
  kconfigs : b'.kconfigs = b.kconfigs
  configured : b'.configured = b.configured

theorem Build.Alike.trans {b b' b'' : Build} (h : b.Alike b') (h' : b'.Alike b'') : b.Alike b'' :=
  ⟨h'.luazBytecodeThreads.trans h.luazBytecodeThreads, h'.luazFsThreads.trans h.luazFsThreads,
    h'.kconfigs.trans h.kconfigs, h'.configured.trans h.configured⟩

theorem addCommand_alike (output : List Char) (b : Build) : b.Alike (addCommand output b) :=
  ⟨rfl, rfl, rfl, rfl⟩

theorem addThreads_alike (vars : BuildVars) (paths : List (List Char)) (b : Build) :
    b.Alike (paths.foldl (fun b path => luazAddThread vars path b) b) := by
  induction paths generalizing b with
  | nil => exact ⟨rfl, rfl, rfl, rfl⟩
  | cons path paths ih => exact (addCommand_alike _ b).trans (ih _)

theorem addBytecodeThreads_alike {paths : List (List Char)} {b b' : Build}
    (h : paths.foldlM (fun b path => luazAddBytecodeThread vars path b) b = .ok b') :
    b.Alike b' := by
  induction paths generalizing b with
  | nil =>
      obtain rfl := Except.ok.inj h
      exact ⟨rfl, rfl, rfl, rfl⟩
  | cons path paths ih =>
      rw [List.foldlM_cons, luazAddBytecodeThread] at h
      split at h
      · exact (addCommand_alike _ b).trans (ih h)
      · contradiction

/-- `configure_file` is called once for each path. -/
theorem addFsThreads_configured (vars : BuildVars) (paths : List (List Char)) (b : Build) :
    (paths.foldl (fun b path => luazAddFsThread vars path b) b).configured =
      b.configured ++ paths.map (fsOutput vars) ∧
    (paths.foldl (fun b path => luazAddFsThread vars path b) b).kconfigs = b.kconfigs := by
  induction paths generalizing b with
  | nil => exact ⟨(List.append_nil _).symm, rfl⟩
  | cons path paths ih =>
      obtain ⟨hconfigured, hkconfigs⟩ := ih (luazAddFsThread vars path b)
      exact ⟨hconfigured.trans (List.append_assoc _ _ _), hkconfigs⟩

/-- A file that is not written again keeps its text. -/
theorem addFsThreads_other {file : List Char} {paths : List (List Char)}
    (hfile : file ∉ paths.map (fsOutput vars)) (b : Build) :
    (paths.foldl (fun b path => luazAddFsThread vars path b) b).files file = b.files file := by
  induction paths generalizing b with
  | nil => rfl
  | cons path paths ih =>
      rw [List.map_cons, List.mem_cons, not_or] at hfile
      refine (ih hfile.2 _).trans ?_
      exact Function.update_of_ne hfile.1 _ _

/-- Files with different names all keep their text. -/
theorem addFsThreads_embeds {paths : List (List Char)} (h : (paths.map (fsOutput vars)).Nodup)
    (b : Build) : List.Forall₂ (fun path file =>
      ∃ text, (paths.foldl (fun b path => luazAddFsThread vars path b) b).files file = some text ∧
        EmbedsPath path text) paths (paths.map (fsOutput vars)) := by
  induction paths generalizing b with
  | nil => exact .nil
  | cons path paths ih =>
      obtain ⟨hpath, hpaths⟩ := List.nodup_cons.mp h
      refine .cons ⟨fsThreadText path, ?_, embedsPath_fsThreadText path⟩ (ih hpaths _)
      exact (addFsThreads_other hpath _).trans (Function.update_self _ _ _)

/-- After the whole run. -/
theorem luazGenerateThreads_spec {defs : List ThreadDefinition} {b : Build}
    (h : luazGenerateThreads vars (defineThreads vars defs .start) = .ok b) :
    b.kconfigs = defs.map (fun d => threadKconfig (threadName d.path.text)) ∧
    b.configured = (fsPaths defs).map (fsOutput vars) ∧
    (b.configured.Nodup → List.Forall₂ (fun path file => ∃ text, b.files file = some text ∧
      EmbedsPath path text) (fsPaths defs) b.configured) := by
  obtain ⟨hpaths, hkconfigs, hconfigured⟩ := defineThreads_spec vars defs .start
  generalize defineThreads vars defs .start = start at h hpaths hkconfigs hconfigured
  have hsource := addThreads_alike vars start.luazSourceThreads start
  unfold luazGenerateThreads at h
  generalize start.luazSourceThreads.foldl _ start = sourced at h hsource
  replace h : (sourced.luazBytecodeThreads.foldlM
      (fun b path => luazAddBytecodeThread vars path b) sourced >>= fun b =>
        pure (b.luazFsThreads.foldl (fun b path => luazAddFsThread vars path b) b)) = .ok b := h
  cases hbytecode : sourced.luazBytecodeThreads.foldlM
      (fun b path => luazAddBytecodeThread vars path b) sourced with
  | error e =>
      rw [hbytecode] at h
      contradiction
  | ok compiled =>
      rw [hbytecode] at h
      obtain rfl := Except.ok.inj h
      have halike := hsource.trans (addBytecodeThreads_alike hbytecode)
      have hfs : compiled.luazFsThreads = fsPaths defs := halike.luazFsThreads.trans hpaths
      obtain ⟨hconfigured', hkconfigs'⟩ := addFsThreads_configured vars (fsPaths defs) compiled
      rw [halike.configured, hconfigured] at hconfigured'
      rw [hfs]
      refine ⟨?_, hconfigured', fun hnodup => ?_⟩
      · exact hkconfigs'.trans (halike.kconfigs.trans hkconfigs)
      · rw [hconfigured'] at hnodup ⊢
        exact addFsThreads_embeds hnodup compiled

/-- No thread is lost exactly when no two scripts have the same name, whatever kind they are
of. -/
theorem keepsThreads_iff {defs : List ThreadDefinition} {b : Build}
    (h : luazGenerateThreads vars (defineThreads vars defs .start) = .ok b) :
    KeepsThreads (fsPaths defs) b ↔
      defs.Pairwise fun d d' => ¬ SameScript d.path.text d'.path.text := by
  obtain ⟨hkconfigs, hconfigured, hembedded⟩ := luazGenerateThreads_spec h
  constructor
  · intro hkeeps
    have hsettings := hkeeps.settings
    rw [hkconfigs, List.pairwise_map] at hsettings
    exact hsettings.imp fun hapart hsame => hapart.1 (sameScript_iff.mp hsame)
  · intro hnames
    have hnodup : b.configured.Nodup := by
      rw [hconfigured, fsPaths, List.map_map, List.Nodup, List.pairwise_map]
      refine (hnames.filter _).imp fun hdiffer houtput => hdiffer (sameScript_iff.mpr ?_)
      exact congrArg toupper (fsOutput_inj.mp houtput)
    refine ⟨hnodup, hembedded hnodup, ?_⟩
    rw [hkconfigs, List.pairwise_map]
    refine hnames.imp fun hdiffer => ?_
    have hdistinct := fun hsame => hdiffer (sameScript_iff.mpr hsame)
    exact ⟨hdistinct, fun e he e' he' => symbols_apart hdistinct he he'⟩

def BuildVars.sample : BuildVars := ⟨chars "build", chars "build/luaz", false⟩

/-- The threads of two samples in one application. -/
def sampleThreads : List ThreadDefinition :=
  [⟨.source, ⟨chars "src/hello_world.lua", by decide, by decide⟩⟩,
    ⟨.fs, ⟨chars "/lfs/hello_fs.lua", by decide, by decide⟩⟩]

theorem keepsThreads_sampleThreads :
    ∃ b, luazGenerateThreads .sample (defineThreads .sample sampleThreads .start) = .ok b ∧
      KeepsThreads (fsPaths sampleThreads) b := by
  refine ⟨_, rfl, (keepsThreads_iff rfl).mpr (List.pairwise_pair.mpr ?_)⟩
  exact fun hsame => absurd (sameScript_iff.mp hsame) (by decide)

/-- Two scripts that lie in different directories. -/
def mainScripts : List ThreadDefinition :=
  [⟨.fs, ⟨chars "/lfs/a/main.lua", by decide, by decide⟩⟩,
    ⟨.fs, ⟨chars "/lfs/b/main.lua", by decide, by decide⟩⟩]

/-- Both are configured into one file, and the second overwrites the first. -/
theorem not_keepsThreads_mainScripts :
    (fsPaths mainScripts).Nodup ∧
    ∃ b, luazGenerateThreads .sample (defineThreads .sample mainScripts .start) = .ok b ∧
      ¬ KeepsThreads (fsPaths mainScripts) b ∧
      b.configured = List.replicate 2 (chars "build/luaz/lua/main_lua_fs_thread.c") ∧
      b.files (chars "build/luaz/lua/main_lua_fs_thread.c") =
        some (fsThreadText (chars "/lfs/b/main.lua")) := by
  have hconfigured {b : Build}
      (h : b.configured = List.replicate 2 (chars "build/luaz/lua/main_lua_fs_thread.c"))
      (hkeeps : KeepsThreads (fsPaths mainScripts) b) : False :=
    absurd (h ▸ hkeeps.apart) (by decide)
  exact ⟨by decide, _, rfl, hconfigured rfl, rfl, rfl⟩

end LuaZephyr
