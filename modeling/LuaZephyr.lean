import LuaZephyr.Library.Words
import LuaZephyr.Library.CString
import LuaZephyr.Library.CStruct
import LuaZephyr.Library.CMake
import LuaZephyr.Library.CLiteral
import LuaZephyr.Library.PyText
import LuaZephyr.Library.CLexing
import LuaZephyr.Library.CConstants
import LuaZephyr.Library.Patch
import LuaZephyr.Library.Outcome
import LuaZephyr.Library.Runs
import LuaZephyr.Library.Programs
import LuaZephyr.Library.LineEditing
import LuaZephyr.Library.Recording
import LuaZephyr.Library.RegexSub
import LuaZephyr.Lua.Value
import LuaZephyr.Lua.Heap
import LuaZephyr.Lua.Api
import LuaZephyr.Lua.Rules
import LuaZephyr.Lua.Chunks
import LuaZephyr.Lua.Require
import LuaZephyr.Lua.Modules
import LuaZephyr.MsgDescr.Codec
import LuaZephyr.MsgDescr.Layout
import LuaZephyr.MsgDescr.Encode
import LuaZephyr.MsgDescr.StackUse
import LuaZephyr.MsgDescr.Decode
import LuaZephyr.MsgDescr.WellFormed
import LuaZephyr.MsgDescr.Macros
import LuaZephyr.MsgDescr.Supplied
import LuaZephyr.MsgDescr.Leaves
import LuaZephyr.MsgDescr.Shown
import LuaZephyr.MsgDescr.Normal
import LuaZephyr.MsgDescr.RoundTrip
import LuaZephyr.MsgDescr.Shuffled
import LuaZephyr.MsgDescr.Exact
import LuaZephyr.MsgDescr.Integers
import LuaZephyr.MsgDescr.FieldReads
import LuaZephyr.MsgDescr.StringBuf
import LuaZephyr.MsgDescr.Strings
import LuaZephyr.MsgDescr.Amid
import LuaZephyr.MsgDescr.Structs
import LuaZephyr.MsgDescr.StructValues
import LuaZephyr.Nanopb.Bridge
import LuaZephyr.Nanopb.Naming
import LuaZephyr.Zbus.Bindings
import LuaZephyr.Zbus.Methods
import LuaZephyr.Zbus.Kernel
import LuaZephyr.Zbus.Queues
import LuaZephyr.Zbus.Threads
import LuaZephyr.Zbus.PubRead
import LuaZephyr.Zbus.RawMemory
import LuaZephyr.Zbus.Receive
import LuaZephyr.Zbus.Residue
import LuaZephyr.Zbus.Delivery
import LuaZephyr.Zbus.Typed
import LuaZephyr.Zbus.Halves
import LuaZephyr.Zbus.SharedStrings
import LuaZephyr.Zbus.Observers
import LuaZephyr.Generate.LuazGen
import LuaZephyr.Generate.Pieces
import LuaZephyr.Generate.Templates
import LuaZephyr.Generate.Inside
import LuaZephyr.Generate.Isolation
import LuaZephyr.Generate.Embedding
import LuaZephyr.Generate.Bytecode
import LuaZephyr.Generate.Threads
import LuaZephyr.Fs.Files
import LuaZephyr.Fs.Writing
import LuaZephyr.Fs.Replacing
import LuaZephyr.Fs.Loading
import LuaZephyr.Fs.Buffers
import LuaZephyr.Fs.Contract
import LuaZephyr.Fs.Functions
import LuaZephyr.Fs.Listing
import LuaZephyr.Fs.Paths
import LuaZephyr.Shell.Readline
import LuaZephyr.Fs.Volume
import LuaZephyr.Fs.Served
import LuaZephyr.Fs.Store
import LuaZephyr.Fs.Typing
import LuaZephyr.Shell.Sessions
import LuaZephyr.Entry.Points
import LuaZephyr.Entry.Memory
import LuaZephyr.Entry.Repl
import LuaZephyr.Entry.Prompts
import LuaZephyr.Entry.Survival
import LuaZephyr.Entry.Closing
import LuaZephyr.Lua.Requires
import LuaZephyr.Samples.Producer
import LuaZephyr.Samples.ProducerConsumer
import LuaZephyr.Samples.LittleFs
import LuaZephyr.Host.LuacListing
import LuaZephyr.Host.Luac
import LuaZephyr.Host.LuacRuns
import LuaZephyr.Host.BytecodeBuild
import LuaZephyr.Nanopb.Messages
