import DreamDota.Build.JassNativeCode

/-!
# The layers of a native agree

1. `Expr.type`, `Passes`: when the arguments of a call have the types of the parameters.
2. `forArgs_letters`: every table has an entry for every letter of an argument.
3. `agree_signatureOf`: all layers of a native, for any letters. `jassNatives_spec`: from the lines of
   the list.
-/

namespace DreamDota

namespace JassNative

/-! ## Typing -/

/-- A value of the one type is a value of the other. -/
def Converts (t u : CType) : Prop := t = u ∨ (t = .float ∧ u = .double)

/-- The types of the variables. -/
def scope (decls : List Decl) (i : ℕ) : Option CType :=
  (decls.find? fun d => d.var == i).map fun d => d.name.type

/-- The variable of an argument. -/
def Expr.index : Expr → Option ℕ
  | .empty => none
  | .var i | .floatCast i | .addressOf i | .strToJassstr i => some i

/-- The type of an argument. A cast, an address or a call of `STR_TO_JASSSTR` expects one type. -/
def Expr.type (vars : ℕ → Option CType) : Expr → Option CType
  | .empty => none
  | .var i => vars i
  | .floatCast i => if vars i = some .double then some .float else none
  | .addressOf i => if vars i = some .float then some .floatPtr else none
  | .strToJassstr i => if vars i = some .charPtr then some .dword else none

/-- An argument is its variable, in a type that converts to that of the parameter. -/
structure Passes (decls : List Decl) (i : ℕ) (e : Expr) (param : TypeName) : Prop where
  index : e.index = some i
  type : ∃ t, e.type (scope decls) = some t ∧ Converts t param.type

/-- As many arguments as parameters, and each of them is passed. -/
structure Calls (decls : List Decl) (args : List Expr) (p : Prototype) : Prop where
  length : args.length = p.params.length
  passes : ∀ i e param, args[i]? = some e → p.params[i]? = some param → Passes decls i e param

/-- What a function of Lua expects. -/
def LuaReader.type : LuaReader → CType
  | .integer => .int
  | .number => .double
  | .dword => .dword
  | .string => .charPtr
  | .boolean => .bool

def LuaPush.type : LuaPush → CType
  | .call => .void
  | .integer => .int
  | .number => .double
  | .dword => .dword
  | .string => .charPtr
  | .boolean => .bool

/-- The argument is read from its place on the stack. -/
structure LuaLocal.Reads (l : LuaLocal) (i : ℕ) : Prop where
  var : l.decl.var = i
  index : l.index = i + 1
  type : Converts l.reader.type l.decl.name.type

/-- The function of Lua and what it calls. -/
structure LuaCalls (l : LuaFunction) (p : Prototype) : Prop where
  top : l.top = p.params.length
  length : l.locals.length = p.params.length
  reads : ∀ i (a : LuaLocal), l.locals[i]? = some a → a.Reads i
  calls : Calls (l.locals.map LuaLocal.decl) l.args p
  result : ∃ t, p.result = some t ∧ Converts t.type l.push.type
  returns : l.returns = if l.push = .call then 0 else 1

/-- The type of the result of a wrapper, from that of the native. -/
def RvCode.type : RvCode → CType → Option CType
  | .statement, .void => some .void
  | .plain, t => some t
  | .jassstrToStr, .dword => some .charPtr
  | .jassFloatCast, .dword => some .float
  | _, _ => none

/-- The wrapper, its prototype and the native that it calls. -/
structure WrapperCalls (w : WrapperImpl) (header native : Prototype) : Prop where
  result_eq : w.result = header.result
  params_eq : w.params.map Decl.name = header.params
  vars : ∀ i (d : Decl), w.params[i]? = some d → d.var = i
  calls : Calls w.params w.args native
  result : ∃ t u v, native.result = some t ∧ w.result = some u ∧ w.rv.type t.type = some v ∧
    Converts v u.type

/-- The wrapper is a function, or another name of the native. -/
inductive Layers (l : LuaFunction) (native : Prototype) : Option Prototype → Option WrapperImpl → Prop
  | wrapped {header : Prototype} {w : WrapperImpl} (hlua : LuaCalls l header)
    (hwrapper : WrapperCalls w header native) : Layers l native (some header) (some w)
  | defined (hlua : LuaCalls l native) : Layers l native none none

/-- What is generated for a native fits together. -/
def Agree (f : Signature) : Prop :=
  ∃ l native header w, luaFunction f = some l ∧ jassPrototype f = some native ∧
    jassWrapperPrototype f = some header ∧ jassWrapperImpl f = some w ∧ Layers l native header w

/-! ## The tables -/

variable {β : Type} {ts : List Letter} {rv : Option Letter} {name : Text}

/-- The list has the entry of `g` for each letter. -/
structure Entries (g : Letter → ℕ → Option β) (ts : List Letter) (bs : List β) : Prop where
  length : bs.length = ts.length
  entry : ∀ i, bs[i]? = ts[i]?.bind fun t => g t i

theorem Entries.cons {g : Letter → ℕ → Option β} {t : Letter} {b : β} {bs : List β}
    (hb : g t 0 = some b) (h : Entries (fun t i => g t (i + 1)) ts bs) :
    Entries g (t :: ts) (b :: bs) := by
  refine ⟨congrArg Nat.succ h.length, fun i => ?_⟩
  cases i with
  | zero => exact hb.symm
  | succ i => exact h.entry i

theorem mapM_zipIdx {g : Char → ℕ → Option β} (hg : ∀ t i, (g (Letter.char t) i).isSome)
    (ts : List Letter) (k : ℕ) :
    ∃ bs, ((ts.map Letter.char).zipIdx k).mapM (fun p => g p.1 p.2) = some bs ∧
      Entries (fun t i => g t.char (k + i)) ts bs := by
  induction ts generalizing k with
  | nil => exact ⟨[], rfl, rfl, fun _ => rfl⟩
  | cons t ts ih =>
    obtain ⟨b, hb⟩ := Option.isSome_iff_exists.mp (hg t k)
    obtain ⟨bs, hbs, hentries⟩ := ih (k + 1)
    refine ⟨b :: bs, ?_, .cons hb ?_⟩
    · rw [List.map_cons, List.zipIdx_cons, List.mapM_cons, hb, hbs]
      rfl
    · simp only [Nat.add_assoc, Nat.add_comm 1] at hentries
      exact hentries

/-- Every table has an entry for every letter. -/
theorem forArgs_letters {g : Char → ℕ → Option β} (hg : ∀ t i, (g (Letter.char t) i).isSome)
    (ts : List Letter) : ∃ bs, forArgs g (ts.map Letter.char) = some bs ∧
      Entries (fun t => g t.char) ts bs := by
  obtain ⟨bs, hbs, hentries⟩ := mapM_zipIdx hg ts 0
  simp only [Nat.zero_add] at hentries
  exact ⟨bs, hbs, hentries⟩

theorem Entries.map {γ : Type} {g : Letter → ℕ → Option β} {bs : List β} (h : Entries g ts bs)
    (f : β → γ) : Entries (fun t i => (g t i).map f) ts (bs.map f) := by
  refine ⟨by rw [List.length_map, h.length], fun i => ?_⟩
  rw [List.getElem?_map, h.entry i, Option.map_bind]
  rfl

theorem Entries.exists_letter {g : Letter → ℕ → Option β} {bs : List β} {b : β} {i : ℕ}
    (h : Entries g ts bs) (hb : bs[i]? = some b) : ∃ t, ts[i]? = some t ∧ g t i = some b := by
  rw [h.entry i] at hb
  exact Option.bind_eq_some_iff.mp hb

theorem getLuaArgCode_isSome (t : Letter) (i : ℕ) : (getLuaArgCode t.char i).isSome := by
  cases t <;> rfl

theorem getArgFullname_isSome (t : Letter) : (getArgFullname t.char).isSome := by
  cases t <;> rfl

theorem getWrapperFullname_isSome (t : Letter) : (getWrapperFullname t.char).isSome := by
  cases t <;> rfl

theorem getArgCode_isSome (t : Letter) (i : ℕ) : (getArgCode t.char i).isSome := by
  cases t <;> rfl

theorem scope_eq {decls : List Decl} {k : ℕ}
    (h : ∀ i (d : Decl), decls[i]? = some d → d.var = k + i) (i : ℕ) :
    scope decls (k + i) = decls[i]?.map fun d => d.name.type := by
  unfold scope
  congr 1
  induction decls generalizing k i with
  | nil => rfl
  | cons d decls ih =>
    have hd : d.var = k := h 0 d rfl
    have htail : ∀ j (d' : Decl), decls[j]? = some d' → d'.var = k + 1 + j := fun j d' hj => by
      rw [h (j + 1) d' hj]
      omega
    cases i with
    | zero =>
      have heq : (d.var == k + 0) = true := by rw [hd, Nat.add_zero, beq_self_eq_true]
      simp only [List.find?_cons, heq]
      rfl
    | succ i =>
      have hne : (d.var == k + (i + 1)) = false := by
        rw [hd, beq_eq_false_iff_ne]
        omega
      have hnext := ih htail i
      rw [Nat.add_right_comm, Nat.add_assoc] at hnext
      simp only [List.find?_cons, hne]
      rw [hnext, List.getElem?_cons_succ]

/-- What a call needs of the tables that it is made of: `gd` declares the variables, `ge` is the
argument and `gp` the parameter. -/
structure Fits (gd : Letter → ℕ → Option Decl) (ge : Letter → ℕ → Option Expr)
    (gp : Letter → ℕ → Option TypeName) (t : Letter) : Prop where
  entries : ∀ i, ∃ d e param, gd t i = some d ∧ ge t i = some e ∧ gp t i = some param ∧
    d.var = i ∧ e.index = some i ∧
    ∀ vars, vars i = some d.name.type → ∃ u, e.type vars = some u ∧ Converts u param.type

theorem calls_of_fits {gd : Letter → ℕ → Option Decl} {ge : Letter → ℕ → Option Expr}
    {gp : Letter → ℕ → Option TypeName} (h : ∀ t ∈ ts, Fits gd ge gp t) {decls : List Decl}
    {args : List Expr} {p : Prototype} (hd : Entries gd ts decls) (he : Entries ge ts args)
    (hp : Entries gp ts p.params) : Calls decls args p := by
  have hvar : ∀ j (d : Decl), decls[j]? = some d → d.var = 0 + j := by
    intro j d hdecl
    obtain ⟨t, ht, hgd⟩ := hd.exists_letter hdecl
    obtain ⟨d', _, _, hgd', _, _, hvar, _⟩ := (h t (List.mem_of_getElem? ht)).entries j
    rw [Option.some.inj (hgd.symm.trans hgd'), hvar, Nat.zero_add]
  refine ⟨he.length.trans hp.length.symm, fun i e param harg hparam => ?_⟩
  obtain ⟨t, ht, hge⟩ := he.exists_letter harg
  obtain ⟨d, e', param', hgd, hge', hgp, _, hindex, htype⟩ :=
    (h t (List.mem_of_getElem? ht)).entries i
  obtain rfl := Option.some.inj (hge'.symm.trans hge)
  have hparam' := hp.entry i
  rw [ht, Option.bind_some, hgp] at hparam'
  obtain rfl := Option.some.inj (hparam'.symm.trans hparam)
  have hscope := scope_eq hvar i
  rw [Nat.zero_add, hd.entry i, ht, Option.bind_some, hgd] at hscope
  exact ⟨hindex, htype _ hscope⟩

/-! ## The calls -/

/-- The declarations of the function of Lua. -/
abbrev luaDecl (t : Letter) (i : ℕ) : Option Decl := (getLuaArgCode t.char i).map LuaLocal.decl

/-- The declarations of the wrapper. -/
abbrev wrapperDecl (t : Letter) (i : ℕ) : Option Decl :=
  (getWrapperFullname t.char).map (⟨·, i⟩)

theorem fits_lua_wrapper (t : Letter) : Fits luaDecl (fun t i => some (luaArg t.char i))
    (fun t _ => getWrapperFullname t.char) t := by
  constructor
  intro i
  cases t with
  | R => exact ⟨_, _, _, rfl, rfl, rfl, rfl, rfl, fun vars h => ⟨_, if_pos h, .inl rfl⟩⟩
  | _ => exact ⟨_, _, _, rfl, rfl, rfl, rfl, rfl, fun vars h => ⟨_, h, .inl rfl⟩⟩

/-- Without strings and reals the native takes what Lua passes. -/
theorem fits_lua_native {t : Letter} (hS : t ≠ .S) (hR : t ≠ .R) :
    Fits luaDecl (fun t i => some (luaArg t.char i)) (fun t _ => getArgFullname t.char) t := by
  constructor
  intro i
  cases t with
  | R => exact absurd rfl hR
  | S => exact absurd rfl hS
  | _ => exact ⟨_, _, _, rfl, rfl, rfl, rfl, rfl, fun vars h => ⟨_, h, .inl rfl⟩⟩

theorem fits_wrapper_native (t : Letter) : Fits wrapperDecl (fun t i => getArgCode t.char i)
    (fun t _ => getArgFullname t.char) t := by
  constructor
  intro i
  cases t with
  | R => exact ⟨_, _, _, rfl, rfl, rfl, rfl, rfl, fun vars h => ⟨_, if_pos h, .inl rfl⟩⟩
  | S => exact ⟨_, _, _, rfl, rfl, rfl, rfl, rfl, fun vars h => ⟨_, if_pos h, .inl rfl⟩⟩
  | _ => exact ⟨_, _, _, rfl, rfl, rfl, rfl, rfl, fun vars h => ⟨_, h, .inl rfl⟩⟩

theorem reads_of_entries {locals : List LuaLocal}
    (h : Entries (fun t => getLuaArgCode t.char) ts locals) (i : ℕ) (a : LuaLocal)
    (ha : locals[i]? = some a) : a.Reads i := by
  obtain ⟨t, -, ht⟩ := h.exists_letter ha
  cases t <;> exact Option.some.inj ht ▸ ⟨rfl, rfl, .inl rfl⟩

/-- The function of Lua for these letters. -/
theorem luaFunction_signatureOf (name : Text) (ts : List Letter) (rv : Option Letter) :
    ∃ locals args push, luaFunction (signatureOf name ts rv) =
        some ⟨ts.length, locals, args, push, if rvChar rv = 'V' then 0 else 1⟩ ∧
      Entries (fun t => getLuaArgCode t.char) ts locals ∧
      Entries (fun t i => some (luaArg t.char i)) ts args ∧
      getLuaRvCode (rvChar rv) = some push := by
  obtain ⟨args, hargs, hargs'⟩ := forArgs_letters (g := fun t i => some (luaArg t i))
    (fun _ _ => rfl) ts
  obtain ⟨locals, hlocals, hlocals'⟩ := forArgs_letters getLuaArgCode_isSome ts
  obtain ⟨push, hpush⟩ : ∃ push, getLuaRvCode (rvChar rv) = some push := by
    rcases rv with _ | t
    · exact ⟨_, rfl⟩
    · cases t <;> exact ⟨_, rfl⟩
  refine ⟨locals, args, push, ?_, hlocals', hargs', hpush⟩
  unfold luaFunction signatureOf
  simp only [hargs, hlocals, hpush, List.length_map]
  rfl

theorem luaCalls_of_fits {gp : Letter → ℕ → Option TypeName} {p : Prototype}
    {locals : List LuaLocal} {args : List Expr} {push : LuaPush}
    (hlocals : Entries (fun t => getLuaArgCode t.char) ts locals)
    (hargs : Entries (fun t i => some (luaArg t.char i)) ts args)
    (hpush : getLuaRvCode (rvChar rv) = some push)
    (hfits : ∀ t ∈ ts, Fits luaDecl (fun t i => some (luaArg t.char i)) gp t)
    (hparams : Entries gp ts p.params)
    (hresult : ∃ t, p.result = some t ∧ Converts t.type push.type) :
    LuaCalls ⟨ts.length, locals, args, push, if rvChar rv = 'V' then 0 else 1⟩ p := by
  refine ⟨hparams.length.symm, hlocals.length.trans hparams.length.symm, reads_of_entries hlocals,
    calls_of_fits hfits (hlocals.map _) hargs hparams, hresult, ?_⟩
  rcases rv with _ | t
  · obtain rfl := Option.some.inj hpush
    rfl
  · cases t <;> (obtain rfl := Option.some.inj hpush; rfl)

theorem isWrapped_eq_false (h : isWrapped (signatureOf name ts rv) = false) :
    (rv ≠ some .S ∧ rv ≠ some .R) ∧ ∀ t ∈ ts, t ≠ .S ∧ t ≠ .R := by
  obtain ⟨hS, hR⟩ := Bool.or_eq_false_iff.mp h
  have hnotS : 'S' ∉ rvChar rv :: ts.map Letter.char := fun hin =>
    Bool.eq_false_iff.mp hS (List.contains_iff_mem.mpr hin)
  have hnotR : 'R' ∉ rvChar rv :: ts.map Letter.char := fun hin =>
    Bool.eq_false_iff.mp hR (List.contains_iff_mem.mpr hin)
  have hmem : ∀ t ∈ ts, t.char ∈ rvChar rv :: ts.map Letter.char := fun t ht =>
    List.mem_cons_of_mem _ (List.mem_map_of_mem ht)
  refine ⟨⟨?_, ?_⟩, fun t ht => ⟨?_, ?_⟩⟩
  · rintro rfl
    exact hnotS List.mem_cons_self
  · rintro rfl
    exact hnotR List.mem_cons_self
  · rintro rfl
    exact hnotS (hmem _ ht)
  · rintro rfl
    exact hnotR (hmem _ ht)

/-! ## The results -/

theorem result_native {push : LuaPush} (hpush : getLuaRvCode (rvChar rv) = some push)
    (hS : rv ≠ some .S) (hR : rv ≠ some .R) (hC : rv ≠ some .C) :
    ∃ t, getRvFullname (rvChar rv) = some t ∧ Converts t.type push.type := by
  rcases rv with _ | t
  · obtain rfl := Option.some.inj hpush
    exact ⟨_, rfl, .inl rfl⟩
  · cases t with
    | S => exact absurd rfl hS
    | R => exact absurd rfl hR
    | C => exact absurd rfl hC
    | _ =>
      obtain rfl := Option.some.inj hpush
      exact ⟨_, rfl, .inl rfl⟩

theorem result_wrapper {push : LuaPush} (hpush : getLuaRvCode (rvChar rv) = some push) :
    ∃ t, getWrapperFullname (rvChar rv) = some t ∧ Converts t.type push.type := by
  rcases rv with _ | t
  · obtain rfl := Option.some.inj hpush
    exact ⟨_, rfl, .inl rfl⟩
  · cases t with
    -- The number of Lua is a `double`.
    | R =>
      obtain rfl := Option.some.inj hpush
      exact ⟨_, rfl, .inr ⟨rfl, rfl⟩⟩
    | _ =>
      obtain rfl := Option.some.inj hpush
      exact ⟨_, rfl, .inl rfl⟩

theorem result_wrapper_native (hC : rv ≠ some .C) :
    ∃ t u v, getRvFullname (rvChar rv) = some t ∧ getWrapperFullname (rvChar rv) = some u ∧
      (rvCode (rvChar rv)).type t.type = some v ∧ Converts v u.type := by
  rcases rv with _ | t
  · exact ⟨_, _, _, rfl, rfl, rfl, .inl rfl⟩
  · cases t with
    | C => exact absurd rfl hC
    | _ => exact ⟨_, _, _, rfl, rfl, rfl, .inl rfl⟩

/-! ## All layers -/

/-- The wrapper for these letters, if it is a function. -/
theorem wrapperCalls_of_entries {natives types : List TypeName} {decls : List Decl}
    {args : List Expr} {cleanup : Bool}
    (hnatives : Entries (fun t _ => getArgFullname t.char) ts natives)
    (htypes : Entries (fun t _ => getWrapperFullname t.char) ts types)
    (hdecls : Entries wrapperDecl ts decls)
    (hargs : Entries (fun t i => getArgCode t.char i) ts args)
    (hC : rv ≠ some .C) :
    WrapperCalls ⟨getWrapperFullname (rvChar rv), decls, args, rvCode (rvChar rv), cleanup⟩
      ⟨getWrapperFullname (rvChar rv), types⟩ ⟨getRvFullname (rvChar rv), natives⟩ := by
  refine ⟨rfl, List.ext_getElem? fun i => ?_, fun i d hd => ?_,
    calls_of_fits (fun t _ => fits_wrapper_native t) hdecls hargs hnatives,
    result_wrapper_native hC⟩
  · rw [(hdecls.map Decl.name).entry i, htypes.entry i]
    cases ts[i]? with
    | none => rfl
    | some t => cases t <;> rfl
  · obtain ⟨t, -, ht⟩ := hdecls.exists_letter hd
    obtain ⟨name, -, rfl⟩ := Option.map_eq_some_iff.mp ht
    rfl

/-- The layers of a native, unless it returns code. -/
theorem agree_signatureOf (name : Text) (ts : List Letter) (hC : rv ≠ some .C) :
    Agree (signatureOf name ts rv) := by
  obtain ⟨locals, args, push, hlua, hlocals, hargs, hpush⟩ := luaFunction_signatureOf name ts rv
  obtain ⟨natives, hnatives, hnatives'⟩ := forArgs_letters (g := fun t _ => getArgFullname t)
    (fun t _ => getArgFullname_isSome t) ts
  obtain ⟨types, htypes, htypes'⟩ := forArgs_letters (g := fun t _ => getWrapperFullname t)
    (fun t _ => getWrapperFullname_isSome t) ts
  have hnative : jassPrototype (signatureOf name ts rv) =
      some ⟨getRvFullname (rvChar rv), natives⟩ := by
    unfold jassPrototype signatureOf
    simp only [hnatives]
    rfl
  have hheader : jassWrapperPrototype (signatureOf name ts rv) =
      some (if isWrapped (signatureOf name ts rv) then
        some ⟨getWrapperFullname (rvChar rv), types⟩ else none) := by
    unfold jassWrapperPrototype
    rw [show (signatureOf name ts rv).jargs = ts.map Letter.char from rfl, htypes]
    rfl
  cases hwrapped : isWrapped (signatureOf name ts rv) with
  | false =>
    obtain ⟨⟨hS, hR⟩, hts⟩ := isWrapped_eq_false hwrapped
    have himpl : jassWrapperImpl (signatureOf name ts rv) = some none := by
      unfold jassWrapperImpl
      rw [hwrapped]
      rfl
    rw [hwrapped] at hheader
    refine ⟨_, _, _, _, hlua, hnative, hheader, himpl, .defined ?_⟩
    exact luaCalls_of_fits hlocals hargs hpush
      (fun t ht => fits_lua_native (hts t ht).1 (hts t ht).2) hnatives'
      (result_native hpush hS hR hC)
  | true =>
    obtain ⟨decls, hdecls, hdecls'⟩ := forArgs_letters
      (g := fun t i => (getWrapperFullname t).map fun name => (⟨name, i⟩ : Decl))
      (fun t _ => by rw [Option.isSome_map]; exact getWrapperFullname_isSome t) ts
    obtain ⟨args', hargs', hentries⟩ := forArgs_letters getArgCode_isSome ts
    have himpl : jassWrapperImpl (signatureOf name ts rv) = some (some
        ⟨getWrapperFullname (rvChar rv), decls, args', rvCode (rvChar rv),
          (ts.map Letter.char).contains 'S'⟩) := by
      unfold jassWrapperImpl
      rw [hwrapped, show (signatureOf name ts rv).jargs = ts.map Letter.char from rfl, hdecls,
        hargs']
      rfl
    rw [hwrapped] at hheader
    refine ⟨_, _, _, _, hlua, hnative, hheader, himpl, .wrapped ?_
      (wrapperCalls_of_entries hnatives' htypes' hdecls' hentries hC)⟩
    exact luaCalls_of_fits hlocals hargs hpush (fun t _ => fits_lua_wrapper t) htypes'
      (result_wrapper hpush)

/-- The native of a function that returns code has no type. -/
theorem not_agree_code (name : Text) (ts : List Letter) : ¬Agree (signatureOf name ts (some .C)) := by
  rintro ⟨l, native, header, w, -, hnative, -, -, hlayers⟩
  obtain ⟨params, -, hparams⟩ := Option.bind_eq_some_iff.mp hnative
  have hresult : native.result = none := by
    rw [← Option.some.inj hparams]
    rfl
  cases hlayers with
  | wrapped hlua hwrapper =>
    obtain ⟨t, u, v, ht, -⟩ := hwrapper.result
    cases hresult.symm.trans ht
  | defined hlua =>
    obtain ⟨t, ht, -⟩ := hlua.result
    cases hresult.symm.trans ht

theorem saveLines_isSome {emit : Signature → Option String} {lines : List Signature}
    (h : ∀ f ∈ lines, (emit f).isSome) : (saveLines emit lines).isSome := by
  unfold saveLines
  rw [Option.isSome_map]
  induction lines with
  | nil => rfl
  | cons f lines ih =>
    obtain ⟨text, htext⟩ := Option.isSome_iff_exists.mp (h f List.mem_cons_self)
    obtain ⟨texts, htexts⟩ := Option.isSome_iff_exists.mp
      (ih fun f hf => h f (List.mem_cons_of_mem _ hf))
    rw [List.mapM_cons, htext, htexts]
    rfl

/-- All files are written for natives with layers that agree. -/
theorem save_isSome {lines : List Signature} (h : ∀ f ∈ lines, Agree f) :
    (saveLuaImplCode lines).isSome ∧ (saveJassPrototypeCode lines).isSome ∧
      (saveJassWrapperPrototype lines).isSome ∧ (saveJassWrapperImpl lines).isSome := by
  refine ⟨saveLines_isSome fun f hf => ?_, saveLines_isSome fun f hf => ?_,
    saveLines_isSome fun f hf => ?_, saveLines_isSome fun f hf => ?_⟩ <;>
    obtain ⟨l, native, header, w, hl, hnative, hheader, hw, -⟩ := h f hf
  · rw [hl]
    rfl
  · rw [hnative]
    rfl
  · rw [hheader]
    rfl
  · rw [hw]
    rfl

/-! ## The list -/

/-- A line of the list is parsed to its letters. Another line is not checked. The layers of a native
agree if it does not return code. -/
theorem jassNatives_spec :
    (∀ l : Line, Outcome l.text (.signature l.signature)) ∧
    (∀ line : Text, Closed (jargsStr line) →
      (Ends line → Outcome line .indexError) ∧ (¬Ends line → ∃ f, Outcome line (.signature f))) ∧
    ∀ (name : Text) (ts : List Letter) (rv : Option Letter), rv ≠ some .C →
      Agree (signatureOf name ts rv) :=
  ⟨parseLine_line, fun _ h => outcome_of_closed h, fun name ts _ hC => agree_signatureOf name ts hC⟩

/-- `SubString|(SII)S` -/
def subString : Line where
  name := "SubString".toList
  items := [.S, .I, .I]
  result := .letter .S
  newline := true
  parenthesis := ⟨by decide, by decide⟩

theorem jassNatives_subString : Outcome subString.text (.signature subString.signature) ∧
    Agree subString.signature ∧ Outcome "F|()".toList .indexError := by
  obtain ⟨hlines, hothers, hagree⟩ := jassNatives_spec
  have hargs : jargsStr "F|()".toList = [] := by decide
  have hclosed : Closed (jargsStr "F|()".toList) := ⟨[], by rw [hargs]; exact .nil⟩
  refine ⟨hlines subString, hagree _ _ _ (by decide), (hothers _ hclosed).1 (.inr ?_)⟩
  exact ⟨"F|(".toList, by decide, rfl⟩

/-- A line of the list, with a semicolon after the letter of the result. -/
def loadInteger : Text := "LoadInteger|(Hhashtable;II)I;\n".toList

theorem not_jassNatives :
    ((∀ l : Line, l.text ≠ loadInteger) ∧
      Outcome loadInteger (.signature ⟨'I', "LoadInteger".toList, "HII".toList⟩)) ∧
    (∀ fuel, parseLine fuel "F|(H)V".toList = none) ∧
    (Outcome "F|()C".toList (.signature (signatureOf "F".toList [] (some .C))) ∧
      ¬Agree (signatureOf "F".toList [] (some .C))) := by
  refine ⟨⟨fun l hl => ?_, 100, by decide⟩, fun fuel => ?_, ⟨100, by decide⟩, not_agree_code _ _⟩
  · have hrest := l.drop_text
    rw [hl] at hrest
    have hafter : l.rest = ['I', ';', '\n'] := hrest.symm.trans (by decide)
    unfold Line.rest at hafter
    cases hresult : l.result with
    | void =>
      rw [hresult] at hafter
      cases hafter
    | letter t =>
      rw [hresult] at hafter
      have hbreak : (if l.newline then ['\n'] else []) = [';', '\n'] := (List.cons.inj hafter).2
      split_ifs at hbreak
      cases hbreak
    | handle type =>
      rw [hresult] at hafter
      cases hafter
  · have hopen : ¬Closed ['H'] := fun h => List.not_mem_nil (semicolon_of_closed h)
    show (scanArgs ['H'] fuel 0 []).map _ = none
    rw [scanArgs_endless hopen (by rwa [List.drop_zero])]
    rfl

end JassNative

end DreamDota
