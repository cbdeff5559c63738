import LuaZephyr.Library.PyText
import LuaZephyr.Library.CLexing

/-!
# Embedding a script in a C file

`luaz_gen.py` in source mode: the script becomes the inside of a C string literal, and
three replacements put it and the script's name into a template. A template is a text
with placeholders, and as long as the name has no `@` each placeholder is replaced by its
own value and nothing else changes.
-/

namespace LuaZephyr

open PyText CLexing

/-- The inside of a C string literal for the script in a file. -/
def luaToCString (file : List Char) : List Char :=
  let script := universalNewlines file
  let strings := (splitlines script).map fun line =>
    replace ['\r'] [] (replace ['"'] ['\\', '"'] line) ++ ['\\', 'n']
  join [' ', '\\', '\n'] (['\\', '\n'] :: strings)

inductive Placeholder where
  | fileName
  | fileNameUpper
  | luaContent
  | luaBytecode
  | luaBytecodeLen
  deriving DecidableEq, Repr

def Placeholder.text : Placeholder → List Char
  | .fileName => chars "@FILE_NAME@"
  | .fileNameUpper => chars "@FILE_NAME_UPPER@"
  | .luaContent => chars "@LUA_CONTENT@"
  | .luaBytecode => chars "@LUA_BYTECODE@"
  | .luaBytecodeLen => chars "@LUA_BYTECODE_LEN@"

/-- `name.upper()`, for a name of ASCII characters. -/
def upper (name : List Char) : List Char := name.map Char.toUpper

/-- `main` before it looks at the script: the template with the names in place. -/
def withNames (template name : List Char) : List Char :=
  replace Placeholder.fileNameUpper.text (upper name)
    (replace Placeholder.fileName.text name template)

/-- `main` in source mode. -/
def generate (template name file : List Char) : List Char :=
  replace Placeholder.luaContent.text (luaToCString file) (withNames template name)

/-- The text of a file, by its lines. -/
def fileText (lines : List (List Char)) : List Char := lines.flatMap (· ++ ['\n'])

/-- `lua_template.h.in`. -/
def luaTemplateH : List Char := fileText [
    chars "/**",
    chars " * @file lua_template.h.in",
    chars " * @brief CMake configure_file template for embedding a Lua script as a C string.",
    chars " *",
    chars " * Placeholders @FILE_NAME@ and @LUA_CONTENT@ are substituted by CMake's",
    chars " * configure_file when luaz_add_file() is called from lua.cmake.",
    chars " * The generated header provides a const char[] containing the Lua source.",
    chars " */",
    chars "",
    chars "/* clang-format off */",
    chars "#ifndef LUA_@FILE_NAME@",
    chars "#define LUA_@FILE_NAME@",
    chars "",
    chars "const char @FILE_NAME@_lua_script[] = \"@LUA_CONTENT@\";",
    chars "",
    chars "#endif /* LUA_@FILE_NAME@ */",
    chars "",
    chars "/* clang-format on */"]

/-- `lua_thread.c.in`. -/
def luaThreadC : List Char := fileText [
    chars "/**",
    chars " * @file lua_thread.c.in",
    chars " * @brief CMake configure_file template for generating Lua thread source files.",
    chars " *",
    chars " * Placeholders @FILE_NAME@ and @LUA_CONTENT@ are substituted by CMake's",
    chars " * configure_file when luaz_add_thread() is called from lua.cmake.",
    chars " * The generated file creates a Zephyr thread with its own sys_heap,",
    chars " * Lua state, and an embedded Lua script.",
    chars " */",
    chars "",
    chars "/* clang-format off */",
    chars "",
    chars "#include <lua.h>",
    chars "#include <lauxlib.h>",
    chars "#include <lualib.h>",
    chars "#include <luaz_utils.h>",
    chars "#include <zephyr/kernel.h>",
    chars "",
    chars "#ifndef CONFIG_@FILE_NAME_UPPER@_LUA_THREAD_STACK_SIZE",
    chars "#define CONFIG_@FILE_NAME_UPPER@_LUA_THREAD_STACK_SIZE CONFIG_LUA_THREAD_STACK_SIZE",
    chars "#endif",
    chars "#ifndef CONFIG_@FILE_NAME_UPPER@_LUA_THREAD_HEAP_SIZE",
    chars "#define CONFIG_@FILE_NAME_UPPER@_LUA_THREAD_HEAP_SIZE CONFIG_LUA_THREAD_HEAP_SIZE",
    chars "#endif",
    chars "#ifndef CONFIG_@FILE_NAME_UPPER@_LUA_THREAD_PRIORITY",
    chars "#define CONFIG_@FILE_NAME_UPPER@_LUA_THREAD_PRIORITY CONFIG_LUA_THREAD_PRIORITY",
    chars "#endif",
    chars "",
    chars "static char heap_mem[CONFIG_@FILE_NAME_UPPER@_LUA_THREAD_HEAP_SIZE];",
    chars "static struct sys_heap lua_heap;",
    chars "static const char @FILE_NAME@_lua_script[] = \"@LUA_CONTENT@\";",
    chars "",
    chars "/**",
    chars " * @brief Weak setup hook called before the Lua script executes.",
    chars " *",
    chars " * Override this function to load libraries, declare zbus channels/observers,",
    chars " * or perform any per-thread Lua state initialization.",
    chars " *",
    chars " * @param L  Lua state for this thread.",
    chars " * @return 0 on success, non-zero to abort script execution.",
    chars " */",
    chars "int __weak @FILE_NAME@_lua_setup(lua_State *L)",
    chars "\x7b",
    chars "    ARG_UNUSED(L);",
    chars "",
    chars "\treturn 0;",
    chars "\x7d",
    chars "",
    chars "/** @brief Thread entry point: init heap, create Lua state, and run the script. */",
    chars "static void @FILE_NAME@_lua_thread(void*p1, void*p2, void*p3)",
    chars "\x7b",
    chars "    ARG_UNUSED(p1);",
    chars "    ARG_UNUSED(p2);",
    chars "    ARG_UNUSED(p3);",
    chars "",
    chars "\tsys_heap_init(&lua_heap, heap_mem, CONFIG_@FILE_NAME_UPPER@_LUA_THREAD_HEAP_SIZE);",
    chars "",
    chars "\tlua_State *L = lua_newstate(lua_zephyr_allocator, &lua_heap, 0);",
    chars "\tluaz_openlibs(L);",
    chars "",
    chars "    int err = @FILE_NAME@_lua_setup(L);",
    chars "    if(err) \x7b",
    chars "        lua_close(L);",
    chars "        __ASSERT(false, \"Setup required to be successful\");",
    chars "        return;",
    chars "    \x7d",
    chars "",
    chars "\tif (luaL_dostring(L, @FILE_NAME@_lua_script) != LUA_OK) \x7b",
    chars "\t\tprintk(\"Lua error: %s\\n\", lua_tostring(L, -1));",
    chars "\t\tlua_pop(L, 1);",
    chars "\t\x7d",
    chars "",
    chars "\tlua_close(L);",
    chars "",
    chars "\tluaz_print_mem_usage(&lua_heap, CONFIG_@FILE_NAME_UPPER@_LUA_THREAD_HEAP_SIZE);",
    chars "\x7d",
    chars "",
    chars "K_THREAD_DEFINE(@FILE_NAME@_lua_thread_id, " ++
      chars "CONFIG_@FILE_NAME_UPPER@_LUA_THREAD_STACK_SIZE, @FILE_NAME@_lua_thread, NULL, " ++
      chars "NULL, NULL, CONFIG_@FILE_NAME_UPPER@_LUA_THREAD_PRIORITY, 0, 0);",
    chars "",
    chars "/* clang-format on */"]

end LuaZephyr
