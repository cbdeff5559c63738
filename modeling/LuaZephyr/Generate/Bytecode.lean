import LuaZephyr.Library.CConstants
import LuaZephyr.Generate.Pieces

/-!
# Embedding bytecode in a C file

`luaz_gen.py` in bytecode mode: the bytes that `luac` wrote become the initialiser of an
array, and their number the value of a constant. Four replacements put these and the
script's name into a template. The compiler reads the array as the bytes that were written.

`luac` is a parameter here, a function from the script to the bytes or to nothing; what the
program in the repository does is in the modules on the host tools. Whether the bytes are a
chunk that the Lua core accepts is not asked.
-/

namespace LuaZephyr

open PyText CLexing CConstants

/-- The number of bytes of the file that `luac` wrote, and the bytes. -/
def bytecodeTexts (data : List UInt8) : List Char × List Char :=
  (str data.length, join [',', ' '] (data.map fun b => '0' :: 'x' :: format02x b.toNat))

/-- `luac` reads the script and writes a file, unless it fails, which ends the program. -/
def luaToBytecode (luac : List UInt8 → Option (List UInt8)) (file : List UInt8) :
    Option (List Char × List Char) :=
  (luac file).map bytecodeTexts

/-- `main` in bytecode mode. -/
def generateBytecode (luac : List UInt8 → Option (List UInt8)) (template name : List Char)
    (file : List UInt8) : Option (List Char) :=
  (luaToBytecode luac file).map fun (byteCount, hexBytes) =>
    replace Placeholder.luaBytecodeLen.text byteCount
      (replace Placeholder.luaBytecode.text hexBytes (withNames template name))

/-- `lua_bytecode_template.h.in`. -/
def luaBytecodeTemplateH : List Char := fileText [
    chars "/**",
    chars " * @file lua_bytecode_template.h.in",
    chars " * @brief CMake configure_file template for embedding Lua bytecode as a C array.",
    chars " *",
    chars " * Placeholders @FILE_NAME@, @LUA_BYTECODE@, and @LUA_BYTECODE_LEN@ are",
    chars " * substituted by CMake's configure_file when luaz_add_bytecode_file() is",
    chars " * called from lua.cmake.",
    chars " * The generated header provides a const uint8_t[] containing the bytecode.",
    chars " */",
    chars "",
    chars "/* clang-format off */",
    chars "#ifndef LUA_@FILE_NAME@_BYTECODE",
    chars "#define LUA_@FILE_NAME@_BYTECODE",
    chars "",
    chars "#include <stdint.h>",
    chars "#include <stddef.h>",
    chars "",
    chars "static const uint8_t @FILE_NAME@_lua_bytecode[] = \x7b @LUA_BYTECODE@ \x7d;",
    chars "static const size_t @FILE_NAME@_lua_bytecode_len = @LUA_BYTECODE_LEN@;",
    chars "",
    chars "#endif /* LUA_@FILE_NAME@_BYTECODE */",
    chars "/* clang-format on */"]

/-- `lua_bytecode_thread.c.in`. -/
def luaBytecodeThreadC : List Char := fileText [
    chars "/**",
    chars " * @file lua_bytecode_thread.c.in",
    chars " * @brief CMake configure_file template for generating Lua bytecode thread " ++
      chars "source files.",
    chars " *",
    chars " * Placeholders @FILE_NAME@, @LUA_BYTECODE@, and @LUA_BYTECODE_LEN@ are",
    chars " * substituted by CMake's configure_file when luaz_add_bytecode_thread() is",
    chars " * called from lua.cmake.",
    chars " * The generated file creates a Zephyr thread with its own sys_heap,",
    chars " * Lua state, and pre-compiled bytecode (loaded via luaL_loadbuffer).",
    chars " */",
    chars "",
    chars "/* clang-format off */",
    chars "",
    chars "#include <stdint.h>",
    chars "#include <lua.h>",
    chars "#include <lauxlib.h>",
    chars "#include <lualib.h>",
    chars "#include <luaz_utils.h>",
    chars "#include <zephyr/kernel.h>",
    chars "",
    chars "#ifndef CONFIG_@FILE_NAME_UPPER@_LUA_THREAD_STACK_SIZE",
    chars "#define CONFIG_@FILE_NAME_UPPER@_LUA_THREAD_STACK_SIZE CONFIG_LUA_THREAD_STACK_SIZE",
    chars "#endif",
    chars "#ifndef CONFIG_@FILE_NAME_UPPER@_LUA_THREAD_HEAP_SIZE",
    chars "#define CONFIG_@FILE_NAME_UPPER@_LUA_THREAD_HEAP_SIZE CONFIG_LUA_THREAD_HEAP_SIZE",
    chars "#endif",
    chars "#ifndef CONFIG_@FILE_NAME_UPPER@_LUA_THREAD_PRIORITY",
    chars "#define CONFIG_@FILE_NAME_UPPER@_LUA_THREAD_PRIORITY CONFIG_LUA_THREAD_PRIORITY",
    chars "#endif",
    chars "",
    chars "static char heap_mem[CONFIG_@FILE_NAME_UPPER@_LUA_THREAD_HEAP_SIZE];",
    chars "static struct sys_heap lua_heap;",
    chars "static const uint8_t @FILE_NAME@_lua_bytecode[] = \x7b @LUA_BYTECODE@ \x7d;",
    chars "static const size_t @FILE_NAME@_lua_bytecode_len = @LUA_BYTECODE_LEN@;",
    chars "",
    chars "/**",
    chars " * @brief Weak setup hook called before the Lua script executes.",
    chars " *",
    chars " * Override this function to load libraries, declare zbus channels/observers,",
    chars " * or perform any per-thread Lua state initialization.",
    chars " *",
    chars " * @param L  Lua state for this thread.",
    chars " * @return 0 on success, non-zero to abort script execution.",
    chars " */",
    chars "int __weak @FILE_NAME@_lua_setup(lua_State *L)",
    chars "\x7b",
    chars "    ARG_UNUSED(L);",
    chars "",
    chars "\treturn 0;",
    chars "\x7d",
    chars "",
    chars "/** @brief Thread entry point: init heap, create Lua state, and run bytecode. */",
    chars "static void @FILE_NAME@_lua_thread(void*p1, void*p2, void*p3)",
    chars "\x7b",
    chars "    ARG_UNUSED(p1);",
    chars "    ARG_UNUSED(p2);",
    chars "    ARG_UNUSED(p3);",
    chars "",
    chars "\tsys_heap_init(&lua_heap, heap_mem, CONFIG_@FILE_NAME_UPPER@_LUA_THREAD_HEAP_SIZE);",
    chars "",
    chars "\tlua_State *L = lua_newstate(lua_zephyr_allocator, &lua_heap, 0);",
    chars "\tluaz_openlibs(L);",
    chars "",
    chars "    int err = @FILE_NAME@_lua_setup(L);",
    chars "    if(err) \x7b",
    chars "        lua_close(L);",
    chars "        __ASSERT(false, \"Setup required to be successful\");",
    chars "        return;",
    chars "    \x7d",
    chars "",
    chars "\tif (luaL_loadbuffer(L, (const char *)@FILE_NAME@_lua_bytecode,",
    chars "\t                    @FILE_NAME@_lua_bytecode_len, \"@FILE_NAME@\") != LUA_OK ||",
    chars "\t    lua_pcall(L, 0, LUA_MULTRET, 0) != LUA_OK) \x7b",
    chars "\t\tprintk(\"Lua error: %s\\n\", lua_tostring(L, -1));",
    chars "\t\tlua_pop(L, 1);",
    chars "\t\x7d",
    chars "",
    chars "\tlua_close(L);",
    chars "",
    chars "\tluaz_print_mem_usage(&lua_heap, CONFIG_@FILE_NAME_UPPER@_LUA_THREAD_HEAP_SIZE);",
    chars "\x7d",
    chars "",
    chars "K_THREAD_DEFINE(@FILE_NAME@_lua_thread_id, " ++
      chars "CONFIG_@FILE_NAME_UPPER@_LUA_THREAD_STACK_SIZE, @FILE_NAME@_lua_thread, NULL, " ++
      chars "NULL, NULL, CONFIG_@FILE_NAME_UPPER@_LUA_THREAD_PRIORITY, 0, 0);",
    chars "",
    chars "/* clang-format on */"]

/-- The lines that declare the array and its length, which both templates have. -/
def declarations : List Piece :=
  (chars "static const uint8_t ").map .char ++ .placeholder .fileName ::
    ((chars "_lua_bytecode[] = \x7b ").map .char ++ .placeholder .luaBytecode ::
      ((chars " \x7d;\nstatic const size_t ").map .char ++ .placeholder .fileName ::
        ((chars "_lua_bytecode_len = ").map .char ++ .placeholder .luaBytecodeLen ::
          [.char ';'])))

/-- What is before the declarations. -/
def beforeDeclarations : List Piece → List Piece
  | [] => []
  | p :: ps =>
      if declarations.isPrefixOf (p :: ps) then [] else p :: beforeDeclarations ps

/-- A template with the declarations, and no place for a script's text. -/
structure BytecodeTemplate where
  head : List Piece
  tail : List Piece
  tidy : tidy (head ++ declarations ++ tail) = true
  noContent : .placeholder .luaContent ∉ head ++ declarations ++ tail

/-- A text of pieces is taken apart at its declarations. -/
def splitDeclarations (ps : List Piece) : List Piece × List Piece :=
  (beforeDeclarations ps, ps.drop ((beforeDeclarations ps).length + declarations.length))

def bytecodeTemplateH : BytecodeTemplate :=
  let parts := splitDeclarations (piecesFrom 0 luaBytecodeTemplateH)
  { head := parts.1
    tail := parts.2
    tidy := by decide +kernel
    noContent := by decide +kernel }

def bytecodeThreadC : BytecodeTemplate :=
  let parts := splitDeclarations (piecesFrom 0 luaBytecodeThreadC)
  { head := parts.1
    tail := parts.2
    tidy := by decide +kernel
    noContent := by decide +kernel }

namespace BytecodeTemplate

def pieces (t : BytecodeTemplate) : List Piece := t.head ++ declarations ++ t.tail

/-- The file. -/
def text (t : BytecodeTemplate) : List Char := fill Placeholder.text t.pieces

end BytecodeTemplate

theorem bytecodeTemplateH_text : bytecodeTemplateH.text = luaBytecodeTemplateH := by
  decide +kernel

theorem bytecodeThreadC_text : bytecodeThreadC.text = luaBytecodeThreadC := by
  decide +kernel

/-- What the placeholders stand for in bytecode mode. -/
def embedded (name : List Char) (data : List UInt8) : Placeholder → List Char
  | .luaBytecode => (bytecodeTexts data).2
  | .luaBytecodeLen => (bytecodeTexts data).1
  | p => named name p

theorem embedded_eq (name : List Char) (data : List UInt8) :
    embedded name data = Function.update (Function.update (named name) .luaBytecode
      (bytecodeTexts data).2) .luaBytecodeLen (bytecodeTexts data).1 := by
  funext p
  cases p <;> rfl

theorem isWord_hex (b : UInt8) : IsWord ('0' :: 'x' :: format02x b.toNat) := by
  refine ⟨List.cons_ne_nil _ _, ?_⟩
  intro c hc
  rw [List.mem_cons, List.mem_cons] at hc
  obtain rfl | rfl | hc := hc
  · decide
  · decide
  · obtain ⟨d, hd, rfl⟩ := mem_format02x hc
    exact isWordChar_digitChar hd

theorem isWord_str (n : Nat) : IsWord (str n) := by
  refine ⟨Nat.toDigits_ne_nil, ?_⟩
  intro c hc
  obtain ⟨d, hd, rfl⟩ := mem_toDigits (by decide) hc
  exact isWordChar_digitChar (by omega)

theorem isWord_of_mem_hex {data : List UInt8} :
    ∀ word ∈ data.map fun b => '0' :: 'x' :: format02x b.toNat, IsWord word := by
  intro word hword
  obtain ⟨b, -, rfl⟩ := List.mem_map.mp hword
  exact isWord_hex b

theorem at_not_mem_of_isWord {word : List Char} (h : IsWord word) : '@' ∉ word := by
  intro hmem
  exact absurd (h.2 '@' hmem) (by decide)

theorem at_not_mem_hexBytes (data : List UInt8) : '@' ∉ (bytecodeTexts data).2 := by
  intro hmem
  obtain hsep | ⟨word, hword, hmem⟩ := mem_join hmem
  · simp at hsep
  · exact at_not_mem_of_isWord (isWord_of_mem_hex word hword) hmem

theorem at_not_mem_byteCount (data : List UInt8) : '@' ∉ (bytecodeTexts data).1 :=
  at_not_mem_of_isWord (isWord_str data.length)

/-- The bytes are read back from the initialiser. -/
theorem initialiser_hexBytes (data : List UInt8) :
    initialiser ('{' :: ' ' :: (bytecodeTexts data).2 ++ [' ', '}']) =
      some (data.map UInt8.toNat) := by
  have hconstants : (data.map fun b => '0' :: 'x' :: format02x b.toNat).map integerConstant =
      (data.map UInt8.toNat).map some := by
    simp [integerConstant_hex]
  exact initialiser_join isWord_of_mem_hex hconstants

theorem constant_byteCount (data : List UInt8) :
    constant (bytecodeTexts data).1 = some data.length := by
  rw [bytecodeTexts, constant_of_isWord (isWord_str _), integerConstant_str]

variable {name : List Char}

theorem at_not_mem_embedded (hname : '@' ∉ name) (data : List UInt8) {p : Placeholder}
    (hp : p ≠ .luaContent) : '@' ∉ embedded name data p := by
  cases p with
  | fileName => exact hname
  | fileNameUpper => exact at_not_mem_upper hname
  | luaContent => exact absurd rfl hp
  | luaBytecode => exact at_not_mem_hexBytes data
  | luaBytecodeLen => exact at_not_mem_byteCount data

/-- The declarations of an array and its length in the generated file. -/
def declared (name array length : List Char) : List Char :=
  chars "static const uint8_t " ++ name ++ chars "_lua_bytecode[] = " ++ array ++
    chars ";\nstatic const size_t " ++ name ++ chars "_lua_bytecode_len = " ++ length ++
    chars ";"

/-- A file that is generated from a template carries these bytes. -/
structure Carries (t : BytecodeTemplate) (name : List Char) (data : List UInt8)
    (output : List Char) : Prop where
  /-- Each placeholder has its own value, and all else is as in the template. -/
  filled : output = fill (embedded name data) t.pieces
  /-- The array is read as the bytes, and the constant as their number. -/
  read : ∃ array length,
    output = fill (embedded name data) t.head ++ declared name array length ++
      fill (embedded name data) t.tail ∧
    initialiser array = some (data.map UInt8.toNat) ∧ constant length = some data.length
  /-- No placeholder is left. -/
  gone : ∀ p : Placeholder, ¬ p.text <:+: output
  /-- No other replacement would change a value. -/
  untouched : ∀ p ≠ .luaContent, ∀ (q : Placeholder) (new : List Char),
    replace q.text new (embedded name data p) = embedded name data p

theorem fill_map_char (value : Placeholder → List Char) (text : List Char) :
    fill value (text.map .char) = text := by
  induction text with
  | nil => rfl
  | cons c text ih => rw [List.map_cons, fill_char, ih]

theorem fill_declarations (name : List Char) (data : List UInt8) :
    fill (embedded name data) declarations = declared name
      ('{' :: ' ' :: (bytecodeTexts data).2 ++ [' ', '}']) (bytecodeTexts data).1 := by
  simp only [declarations, declared, fill_append, fill_map_char, fill_placeholder, fill_char,
    fill_nil, embedded, named]
  simp

/-- The four replacements give each placeholder its own value. -/
theorem generateBytecode_fill (hname : '@' ∉ name) {ps : List Piece} (h : tidy ps = true)
    {luac : List UInt8 → Option (List UInt8)} {file data : List UInt8}
    (hluac : luac file = some data) :
    generateBytecode luac (fill Placeholder.text ps) name file =
      some (fill (embedded name data) ps) := by
  have hbytes : named name .luaBytecode = Placeholder.text .luaBytecode := rfl
  have hlen : Function.update (named name) .luaBytecode (bytecodeTexts data).2 .luaBytecodeLen =
      Placeholder.text .luaBytecodeLen := rfl
  have hplain (p : Placeholder) :
      Function.update (named name) .luaBytecode (bytecodeTexts data).2 p = p.text ∨
        '@' ∉ Function.update (named name) .luaBytecode (bytecodeTexts data).2 p := by
    by_cases hp : p = .luaBytecode
    · subst hp
      exact .inr (at_not_mem_hexBytes data)
    · rw [Function.update_of_ne hp]
      exact named_plain hname p
  rw [generateBytecode, luaToBytecode, hluac, withNames_fill hname h, embedded_eq]
  simp only [Option.map_some]
  rw [replace_fill hbytes (named_plain hname) h, replace_fill hlen hplain h]

/-- A text without `@` has nothing to replace. -/
theorem replace_of_plain {text : List Char} (h : '@' ∉ text) (q : Placeholder)
    (new : List Char) : replace q.text new text = text := by
  have happend : replace q.text new (text ++ []) = text ++ replace q.text new [] :=
    replace_append_of_plain h []
  simpa using happend

end LuaZephyr
