import DreamDota.Build.JassNative

/-!
# The layers that are generated for a native

The `save_` functions of `jass_lua_native.py`. A function of Lua reads its arguments from the stack and
calls the wrapper, which calls the native. For a native without strings and reals the wrapper is
another name for the native.

1. `TypeName`, `CType`: the types that are named in the code, and the types that they stand for.
2. `luaFunction`, `jassWrapperPrototype`, `jassWrapperImpl`, `jassPrototype`: what is generated, with
   its text. `none` is an exception.
3. `Agree`: each call passes as many arguments as there are parameters, of types that convert.
-/

namespace DreamDota

namespace JassNative

/-! ## Types -/

inductive CType
  | void
  | int
  | dword
  | bool
  | float
  | double
  | floatPtr
  | charPtr
  deriving DecidableEq

/-- The types by the names that the generated code uses. -/
inductive TypeName
  | void
  | integer
  | real
  | handle
  | string
  | dword
  | bool
  | int
  | float
  | floatPtr
  | charPtr
  | luaNumber
  deriving DecidableEq

def TypeName.text : TypeName → String
  | .void => "void"
  | .integer => "integer"
  | .real => "real"
  | .handle => "handle"
  | .string => "string"
  | .dword => "DWORD"
  | .bool => "bool"
  | .int => "int"
  | .float => "float"
  | .floatPtr => "float*"
  | .charPtr => "const char*"
  | .luaNumber => "lua_Number"

/-- The definitions of `jass_types.h`, and `LUA_NUMBER`. -/
def TypeName.type : TypeName → CType
  | .void => .void
  | .integer => .int
  | .real => .dword
  | .handle => .dword
  | .string => .dword
  | .dword => .dword
  | .bool => .bool
  | .int => .int
  | .float => .float
  | .floatPtr => .floatPtr
  | .charPtr => .charPtr
  | .luaNumber => .double

/-- `%s` of a name, or of `None`. -/
def nameText (name : Option TypeName) : String := (name.map TypeName.text).getD "None"

/-- A variable `a0`, `a1`, .. -/
structure Decl where
  name : TypeName
  var : ℕ

def varText (i : ℕ) : String := "a" ++ toString i

def Decl.text (d : Decl) : String := d.name.text ++ " " ++ varText d.var

/-- An argument of a call. -/
inductive Expr
  | empty
  | var (i : ℕ)
  | floatCast (i : ℕ)
  | addressOf (i : ℕ)
  | strToJassstr (i : ℕ)

def Expr.text : Expr → String
  | .empty => ""
  | .var i => varText i
  | .floatCast i => "(float)" ++ varText i
  | .addressOf i => "&" ++ varText i
  | .strToJassstr i => "STR_TO_JASSSTR(" ++ varText i ++ ")"

/-- The types of the parameters and of the result. -/
structure Prototype where
  result : Option TypeName
  params : List TypeName

def argsText (args : List String) : String := ", ".intercalate args

def paramsText (params : List TypeName) : String :=
  if params = [] then "void" else argsText (params.map TypeName.text)

/-- `for ai in range(len(f['args']))`: an entry for each argument. -/
def forArgs {β : Type} (g : Char → ℕ → Option β) (jargs : Text) : Option (List β) :=
  jargs.zipIdx.mapM fun p => g p.1 p.2

/-! ## Lua -/

/-- How a result is returned to Lua. -/
inductive LuaPush
  | call
  | integer
  | number
  | dword
  | string
  | boolean
  deriving DecidableEq

def LuaPush.text (call : String) : LuaPush → String
  | .call => call ++ ";"
  | .integer => "lua_pushinteger(L, " ++ call ++ ");"
  | .number => "lua_pushnumber(L, " ++ call ++ ");"
  | .dword => "LUA_PUSHDWORD(L, " ++ call ++ ");"
  | .string => "lua_pushstring(L, " ++ call ++ ");"
  | .boolean => "lua_pushboolean(L, " ++ call ++ " ? 1 : 0);"

/-- `get_lua_rv_code` -/
def getLuaRvCode : Char → Option LuaPush
  | 'V' => some .call
  | 'I' => some .integer
  | 'R' => some .number
  | 'H' => some .dword
  | 'S' => some .string
  | 'B' => some .boolean
  | 'C' => some .dword
  | _ => none

/-- How an argument is read from the stack. -/
inductive LuaReader
  | integer
  | number
  | dword
  | string
  | boolean

def LuaReader.text (index : ℕ) : LuaReader → String
  | .integer => "lua_tointeger(L, " ++ toString index ++ ")"
  | .number => "lua_tonumber(L, " ++ toString index ++ ")"
  | .dword => "LUA_TODWORD(L, " ++ toString index ++ ")"
  | .string => "lua_tostring(L, " ++ toString index ++ ")"
  | .boolean => "lua_toboolean(L, " ++ toString index ++ ") > 0"

structure LuaLocal where
  decl : Decl
  reader : LuaReader
  index : ℕ

def LuaLocal.text (l : LuaLocal) : String :=
  l.decl.text ++ " = " ++ l.reader.text l.index ++ ";"

/-- `get_lua_arg_code` -/
def getLuaArgCode (t : Char) (i : ℕ) : Option LuaLocal :=
  match t with
  | 'I' => some ⟨⟨.int, i⟩, .integer, i + 1⟩
  | 'R' => some ⟨⟨.luaNumber, i⟩, .number, i + 1⟩
  | 'H' => some ⟨⟨.dword, i⟩, .dword, i + 1⟩
  | 'S' => some ⟨⟨.charPtr, i⟩, .string, i + 1⟩
  | 'B' => some ⟨⟨.bool, i⟩, .boolean, i + 1⟩
  | 'C' => some ⟨⟨.dword, i⟩, .dword, i + 1⟩
  | _ => none

structure LuaFunction where
  top : ℕ
  locals : List LuaLocal
  args : List Expr
  push : LuaPush
  returns : ℕ

/-- The entry of `a`. -/
def luaArg (t : Char) (i : ℕ) : Expr := if t = 'R' then .floatCast i else .var i

/-- The function that `save_lua_impl_code` writes. -/
def luaFunction (f : Signature) : Option LuaFunction := do
  let args ← forArgs (fun t i => some (luaArg t i)) f.jargs
  let locals ← forArgs getLuaArgCode f.jargs
  let push ← getLuaRvCode f.jrv
  return ⟨f.jargs.length, locals, args, push, if f.jrv = 'V' then 0 else 1⟩

def LuaFunction.text (jfun : String) (l : LuaFunction) : String :=
  "int JASS_" ++ jfun ++ "(lua_State* L) \x7b" ++
    "if (lua_gettop(L) != " ++ toString l.top ++ ") return 0;" ++
    String.join (l.locals.map LuaLocal.text) ++
    l.push.text ("JASS_WRAPPER_" ++ jfun ++ "(" ++ argsText (l.args.map Expr.text) ++ ")") ++
    "return " ++ toString l.returns ++ ";\x7d\n"

/-! ## The native -/

/-- `get_rv_fullname`, without a case for `C`. -/
def getRvFullname : Char → Option TypeName
  | 'V' => some .void
  | 'I' => some .integer
  | 'R' => some .real
  | 'H' => some .handle
  | 'S' => some .dword
  | 'B' => some .bool
  | _ => none

/-- `get_arg_fullname` -/
def getArgFullname : Char → Option TypeName
  | 'I' => some .integer
  | 'R' => some .floatPtr
  | 'H' => some .handle
  | 'S' => some .string
  | 'B' => some .bool
  | 'C' => some .dword
  | _ => none

/-- The type that `save_jass_prototype_code` writes. -/
def jassPrototype (f : Signature) : Option Prototype := do
  let params ← forArgs (fun t _ => getArgFullname t) f.jargs
  return ⟨getRvFullname f.jrv, params⟩

def Prototype.nativeText (jfun : String) (p : Prototype) : String :=
  "typedef " ++ nameText p.result ++ " (*JASS_PROTOTYPE_" ++ jfun ++ ")(" ++
    paramsText p.params ++ ");\n" ++
    "extern JASS_PROTOTYPE_" ++ jfun ++ " JASS_NATIVE_" ++ jfun ++ ";\n"

/-! ## The wrapper -/

/-- `get_wrapper_fullname` -/
def getWrapperFullname : Char → Option TypeName
  | 'V' => some .void
  | 'I' => some .int
  | 'R' => some .float
  | 'H' => some .dword
  | 'S' => some .charPtr
  | 'B' => some .bool
  | 'C' => some .dword
  | _ => none

/-- `get_arg_code` -/
def getArgCode (t : Char) (i : ℕ) : Option Expr :=
  match t with
  | 'V' => some .empty
  | 'I' => some (.var i)
  | 'R' => some (.addressOf i)
  | 'H' => some (.var i)
  | 'S' => some (.strToJassstr i)
  | 'B' => some (.var i)
  | 'C' => some (.var i)
  | _ => none

/-- `'S' in alltypes or 'R' in alltypes` -/
def isWrapped (f : Signature) : Bool :=
  (f.jrv :: f.jargs).contains 'S' || (f.jrv :: f.jargs).contains 'R'

/-- The prototype that `save_jass_wrapper_prototype` writes, or its `#define`. -/
def jassWrapperPrototype (f : Signature) : Option (Option Prototype) := do
  let params ← forArgs (fun t _ => getWrapperFullname t) f.jargs
  return if isWrapped f then some ⟨getWrapperFullname f.jrv, params⟩ else none

def wrapperPrototypeText (jfun : String) : Option Prototype → String
  | some p => nameText p.result ++ " JASS_WRAPPER_" ++ jfun ++ "(" ++ paramsText p.params ++ ");\n"
  | none => "#define JASS_WRAPPER_" ++ jfun ++ " JASS_NATIVE_" ++ jfun ++ "\n"

/-- What a wrapper does with the result of the native. -/
inductive RvCode
  | statement
  | plain
  | jassstrToStr
  | jassFloatCast
  deriving DecidableEq

def rvCode : Char → RvCode
  | 'S' => .jassstrToStr
  | 'R' => .jassFloatCast
  | 'V' => .statement
  | _ => .plain

def RvCode.text (name call : String) : RvCode → String
  | .statement => "\t" ++ call ++ ";\n"
  | .plain => "\t" ++ name ++ " rv = " ++ call ++ ";\n"
  | .jassstrToStr => "\t" ++ name ++ " rv = JASSSTR_TO_STR(" ++ call ++ ");\n"
  | .jassFloatCast => "\t" ++ name ++ " rv = JASS_FLOAT_CAST(" ++ call ++ ");\n"

structure WrapperImpl where
  result : Option TypeName
  params : List Decl
  args : List Expr
  rv : RvCode
  cleanup : Bool

/-- The function that `save_jass_wrapper_impl` writes, if there is one. -/
def jassWrapperImpl (f : Signature) : Option (Option WrapperImpl) :=
  if isWrapped f then do
    let params ← forArgs (fun t i => (getWrapperFullname t).map (⟨·, i⟩)) f.jargs
    let args ← forArgs getArgCode f.jargs
    return some ⟨getWrapperFullname f.jrv, params, args, rvCode f.jrv, f.jargs.contains 'S'⟩
  else some none

def WrapperImpl.text (jfun : String) (w : WrapperImpl) : String :=
  nameText w.result ++ " JASS_WRAPPER_" ++ jfun ++ "(" ++ argsText (w.params.map Decl.text) ++
    ") \x7b\n" ++
    w.rv.text (nameText w.result)
      ("JASS_NATIVE_" ++ jfun ++ "(" ++ argsText (w.args.map Expr.text) ++ ")") ++
    (if w.cleanup then "\tJASS_STR_CLEANUP();\n" else "") ++
    (if w.rv = .statement then "" else "\treturn rv;\n") ++ "\x7d\n\n"

/-! ## The files -/

/-- The text that is written for each signature, one after the other. -/
def saveLines (emit : Signature → Option String) (lines : List Signature) : Option String :=
  (lines.mapM emit).map String.join

/-- `save_lua_impl_code` -/
def saveLuaImplCode : List Signature → Option String :=
  saveLines fun f => (luaFunction f).map (LuaFunction.text (String.ofList f.jfun))

/-- `save_jass_prototype_code` -/
def saveJassPrototypeCode : List Signature → Option String :=
  saveLines fun f => (jassPrototype f).map (Prototype.nativeText (String.ofList f.jfun))

/-- `save_jass_wrapper_prototype` -/
def saveJassWrapperPrototype : List Signature → Option String :=
  saveLines fun f => (jassWrapperPrototype f).map (wrapperPrototypeText (String.ofList f.jfun))

/-- `save_jass_wrapper_impl` -/
def saveJassWrapperImpl : List Signature → Option String :=
  saveLines fun f =>
    (jassWrapperImpl f).map fun w => (w.map (WrapperImpl.text (String.ofList f.jfun))).getD ""

end JassNative

end DreamDota
