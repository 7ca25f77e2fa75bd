import DreamDota.Json.Reading

/-!
# The round trip of JSON texts

What `json_object_to_json_string` writes is read by the tokener as the same value, unless arrays and
objects lie deeper in each other than the stack of the tokener.

1. `ReadsAt.array`, `ReadsAt.object`: the elements and the fields one after the other.
2. `readsAt`: every value that can be read, at every level.
3. `parse_text`: the round trip. `parseEx_text`: the same when the length is given, where a word or a
   number at the end of the text could still go on.
-/

open Bytes

namespace DreamDota

namespace JsonTokener

open Json

variable {D : Type} {len : Bool} {io : DoubleIo D} {tok tok' : Tokener D} {obj v : Json D} {c : Byte}
  {str rest s : Text} {x y : Config D} {r : Srec D} {below : List (Srec D)}
  {elems done : List (Json D)}

/-! ## Levels -/

variable (len io) in
/-- The tokener gives up because of its stack. -/
def TooDeep (x : Config D) : Prop :=
  ∃ k tok, tok.err = .depth ∧ ∀ n, run len io (n + (k + 1)) x = some tok

theorem TooDeep.of_leads (hx : Leads len io x y) (hy : TooDeep len io y) : TooDeep len io x := by
  obtain ⟨k, hk⟩ := hx
  obtain ⟨l, tok, herr, hl⟩ := hy
  refine ⟨k + l + 1, tok, herr, fun n => ?_⟩
  rw [← hl n, ← hk]
  congr 1
  omega

variable (len io) in
/-- A value is read at every level that has room for it. -/
def ReadsAt (v : Json D) : Prop :=
  ∀ (tok : Tokener D) (obj : Json D) (rest : Text), Ready tok → tok.depth < maxDepth →
    Follows v rest →
    (tok.depth + depth v < maxDepth → Reads len io tok obj (text io v) v rest) ∧
    (maxDepth ≤ tok.depth + depth v → TooDeep len io ⟨tok, obj, text io v ++ rest⟩)

/-- A value without others in it. -/
theorem ReadsAt.of_depth_zero (hv : depth v = 0) (h : ∀ (tok : Tokener D) obj rest, Ready tok →
    Follows v rest → Reads len io tok obj (text io v) v rest) : ReadsAt len io v := by
  intro tok obj rest hready hdepth hfollows
  refine ⟨fun _ => h tok obj rest hready hfollows, fun hle => ?_⟩
  rw [hv, Nat.add_zero] at hle
  exact absurd hdepth (Nat.not_lt.mpr hle)

def Tokener.level (tok : Tokener D) (top : Srec D) (below : List (Srec D)) : Tokener D :=
  { tok with top, below }

/-- A complete value goes down one level. -/
theorem Complete.pop {err : Error} (h : Complete v (r :: below) err tok)
    (hs : ∀ b ∈ s, isSpace b = true ∧ b ≠ 0) (hc : isSpace c = false) (hslash : c ≠ ch '/')
    (obj : Json D) (str : Text) :
    Leads len io ⟨tok, obj, s ++ c :: str⟩ ⟨tok.level r below, v, c :: str⟩ := by
  refine (leads_space h.state hs hc hslash).trans (leads_turn ?_)
  change turn len io (tok.goto tok.top.savedState) obj c str = _
  unfold turn
  rw [h.savedState]
  dsimp only [Tokener.goto]
  rw [h.below, h.current]
  rfl

theorem space_ok : ∀ b ∈ ascii " ", isSpace b = true ∧ b ≠ 0 := by
  intro b hb
  rw [List.mem_singleton.mp hb]
  exact ⟨rfl, by decide⟩

/-- The first character of a value is neither white space nor a closing bracket. -/
theorem text_first (h : Ok io v) : ∃ b s, text io v = b :: s ∧ isSpace b = false ∧ b ≠ ch '/' ∧
    b ≠ ch ']' ∧ b ≠ 0 := by
  have hnumber : ∀ b, b = ch '-' ∨ b ∈ numberChars.take 10 → isSpace b = false ∧ b ≠ ch '/' ∧
      b ≠ ch ']' ∧ b ≠ 0 := by
    intro b hb
    rcases digit_cases hb with rfl | rfl | rfl | rfl | rfl | rfl | rfl | rfl | rfl | rfl | rfl <;>
      decide
  cases h with
  | null => exact ⟨ch 'n', _, rfl, by decide⟩
  | boolean b => cases b <;> exact ⟨_, _, rfl, by decide⟩
  | double hd =>
    obtain ⟨b, s, hbs, hfirst⟩ := hd.first
    refine ⟨b, s, ?_, hnumber b hfirst⟩
    rw [text, toJsonString, List.nil_append, hbs]
  | int i =>
    obtain ⟨b, s, hbs⟩ := List.exists_cons_of_ne_nil (printInt_ne_nil i)
    exact ⟨b, s, (text_int i).trans hbs, hnumber b (mem_printInt (hbs ▸ List.mem_cons_self))⟩
  | object => exact ⟨ch '{', _, text_object _, by decide⟩
  | array => exact ⟨ch '[', _, text_array _, by decide⟩
  | string => exact ⟨ch '"', _, text_string _, by decide⟩

/-! ## Arrays -/

variable (tok) in
/-- A value with a space in front of it gets a level of its own, if there is one. -/
theorem reads_inner (hv : ReadsAt len io v) (hok : Ok io v) {state : State}
    (hstate : tok.top.state = .eatws)
    (hsaved : tok.top.savedState = .array ∧ state = .arrayAdd ∨
      tok.top.savedState = .objectValue ∧ state = .objectValueAdd)
    (hc : c ∉ numberChars) (obj : Json D) (str : Text) :
    (tok.depth + (depth v + 1) < maxDepth → ∃ tok' obj', Leads len io
        ⟨tok, obj, ascii " " ++ (text io v ++ c :: str)⟩ ⟨tok', obj', c :: str⟩ ∧
        Complete v ({ tok.top with state } :: tok.below) tok.err tok') ∧
    (maxDepth ≤ tok.depth + (depth v + 1) →
      TooDeep len io ⟨tok, obj, ascii " " ++ (text io v ++ c :: str)⟩) := by
  obtain ⟨b, s, hbs, hspace, hslash, hbracket, hnull⟩ := text_first hok
  have hfirst : Leads len io ⟨tok, obj, ascii " " ++ (text io v ++ c :: str)⟩
      ⟨tok.goto tok.top.savedState, obj, text io v ++ c :: str⟩ := by
    rw [hbs]
    exact leads_space hstate space_ok hspace hslash
  have hturn : step len io ⟨tok.goto tok.top.savedState, obj, text io v ++ c :: str⟩ =
      some (pushTurn (tok.goto tok.top.savedState) obj b (s ++ c :: str) state) := by
    rw [hbs]
    change turn len io _ obj b (s ++ c :: str) = _
    unfold turn
    rcases hsaved with ⟨hsaved, rfl⟩ | ⟨hsaved, rfl⟩ <;> rw [hsaved]
    · exact if_neg hbracket
    · rfl
  have hdepth' : (tok.goto tok.top.savedState).depth = tok.depth := rfl
  unfold pushTurn at hturn
  by_cases hlast : tok.depth ≥ maxDepth - 1
  · rw [if_pos (hdepth' ▸ hlast)] at hturn
    refine ⟨fun hlt => ?_, fun _ => .of_leads hfirst
      ⟨0, (tok.goto tok.top.savedState).fail .depth, rfl, fun n => ?_⟩⟩
    · unfold maxDepth at hlt hlast
      omega
    · rw [Nat.zero_add, run, hturn]
      dsimp only
      rw [decide_eq_false hnull, Tokener.out, if_neg (fun h => Bool.false_ne_true h.1)]
  · rw [if_neg (hdepth' ▸ hlast), ← List.cons_append, ← hbs] at hturn
    have hroom : ((tok.goto tok.top.savedState).push state).depth = tok.depth + 1 := rfl
    obtain ⟨hreads, hdeep⟩ := hv ((tok.goto tok.top.savedState).push state) obj (c :: str)
      ⟨rfl, rfl⟩ (by unfold maxDepth at hlast ⊢; omega) hc
    rw [hroom] at hreads hdeep
    refine ⟨fun hlt => ?_, fun hle =>
      .of_leads (hfirst.trans (leads_turn hturn)) (hdeep (by omega))⟩
    obtain ⟨tok', obj', hleads, hcomplete⟩ := hreads (by omega)
    exact ⟨tok', obj', (hfirst.trans (leads_turn hturn)).trans hleads, hcomplete⟩

variable (len io) in
/-- A value is added to its array, and what follows says whether there is another one. -/
theorem Complete.addElem {err : Error} (h : Complete v (r :: below) err tok)
    (hstate : r.state = .arrayAdd) (hcurrent : r.current = .array done)
    (hs : ∀ b ∈ s, isSpace b = true ∧ b ≠ 0) (hc : c = ch ']' ∨ c = ch ',') (obj : Json D)
    (str : Text) :
    Leads len io ⟨tok, obj, s ++ c :: str⟩
      ⟨tok.level ⟨.eatws, if c = ch ']' then .finish else .array, .array (done ++ [v]),
        r.objFieldName⟩ below, v, str⟩ := by
  have hchar : isSpace c = false ∧ c ≠ ch '/' := by
    rcases hc with rfl | rfl <;> decide
  have hadd : step len io ⟨tok.level r below, v, c :: str⟩ = some (.turn ⟨tok.level
      ⟨.eatws, .arraySep, .array (done ++ [v]), r.objFieldName⟩ below, v, c :: str⟩) := by
    change turn len io (tok.level r below) v c str = _
    unfold turn
    dsimp only [Tokener.level]
    rw [hstate]
    dsimp only
    rw [hcurrent]
    rfl
  refine (h.pop hs hchar.1 hchar.2 obj str).trans ((leads_turn hadd).trans ?_)
  refine (leads_space (s := []) rfl (List.forall_mem_nil _) hchar.1 hchar.2).trans (leads_turn ?_)
  rcases hc with rfl | rfl <;> rfl

theorem moreElems_cons (elems : List (Json D)) :
    moreElems io (v :: elems) = ascii ", " ++ (text io v ++ moreElems io elems) := by
  simp only [moreElems, List.flatMap_cons, List.append_assoc]

theorem comma_notMem : ch ',' ∉ numberChars := by decide

theorem space_notMem : ch ' ' ∉ numberChars := by decide

variable (io) in
/-- What follows an element. -/
theorem exists_more (elems : List (Json D)) (rest : Text) : ∃ c str,
    moreElems io elems ++ (ascii " ]" ++ rest) = c :: str ∧ c ∉ numberChars := by
  cases elems with
  | nil => exact ⟨ch ' ', _, rfl, space_notMem⟩
  | cons v elems =>
    rw [moreElems_cons]
    exact ⟨ch ',', _, rfl, comma_notMem⟩

/-- The elements behind the first one. -/
theorem reads_moreElems {err : Error} (hall : ∀ v ∈ elems, Ok io v ∧ ReadsAt len io v)
    (h : Complete v (r :: below) err tok) (hstate : r.state = .arrayAdd)
    (hcurrent : r.current = .array done) (hdepth : below.length < maxDepth) (obj : Json D)
    (rest : Text) :
    (below.length + elemsDepth elems < maxDepth → ∃ tok' obj', Leads len io
        ⟨tok, obj, moreElems io elems ++ (ascii " ]" ++ rest)⟩ ⟨tok', obj', rest⟩ ∧
        Complete (.array (done ++ v :: elems)) below err tok') ∧
    (maxDepth ≤ below.length + elemsDepth elems →
      TooDeep len io ⟨tok, obj, moreElems io elems ++ (ascii " ]" ++ rest)⟩) := by
  induction elems generalizing v r tok done obj with
  | nil =>
    have hlast := h.addElem len io hstate hcurrent space_ok (.inl rfl) obj rest
    refine ⟨fun _ => ⟨_, v, hlast, rfl, rfl, rfl, rfl, h.err⟩, fun hle => ?_⟩
    rw [elemsDepth, Nat.add_zero] at hle
    exact absurd hdepth (Nat.not_lt.mpr hle)
  | cons v' elems ih =>
    obtain ⟨⟨hok, hreads⟩, hrest⟩ := List.forall_mem_cons.mp hall
    obtain ⟨c, str, hmore, hc⟩ := exists_more io elems rest
    have hnext := h.addElem len io (s := []) hstate hcurrent
      (List.forall_mem_nil _) (.inr rfl) obj (ascii " " ++ (text io v' ++ c :: str))
    rw [if_neg (by decide)] at hnext
    have htext : moreElems io (v' :: elems) ++ (ascii " ]" ++ rest) =
        [] ++ ch ',' :: (ascii " " ++ (text io v' ++ c :: str)) := by
      rw [moreElems_cons, ← hmore]
      simp only [List.append_assoc]
      rfl
    rw [htext, elemsDepth]
    obtain ⟨hinner, hdeep⟩ := reads_inner (tok.level ⟨.eatws, .array,
      .array (done ++ [v]), r.objFieldName⟩ below) hreads hok rfl (.inl ⟨rfl, rfl⟩) hc v str
    have hlevel : (tok.level ⟨.eatws, .array, .array (done ++ [v]), r.objFieldName⟩ below).depth =
        below.length := rfl
    rw [hlevel] at hinner hdeep
    by_cases hfits : below.length + (depth v' + 1) < maxDepth
    · obtain ⟨tok', obj', hleads, hcomplete⟩ := hinner hfits
      have hcurrent' : ({ (tok.level ⟨.eatws, .array, .array (done ++ [v]), r.objFieldName⟩
          below).top with state := .arrayAdd } : Srec D).current = .array (done ++ [v]) := rfl
      obtain ⟨hmoreReads, hmoreDeep⟩ := ih hrest (h.err ▸ hcomplete) rfl hcurrent' obj'
      rw [hmore] at hmoreReads hmoreDeep
      refine ⟨fun hlt => ?_, fun hle => .of_leads (hnext.trans hleads) (hmoreDeep (by omega))⟩
      obtain ⟨tok'', obj'', hleads', hcomplete'⟩ := hmoreReads (by omega)
      refine ⟨tok'', obj'', (hnext.trans hleads).trans hleads', ?_⟩
      rw [List.append_assoc] at hcomplete'
      exact hcomplete'
    · exact ⟨fun hlt => absurd hlt (by omega), fun _ => .of_leads hnext (hdeep (by omega))⟩

theorem ReadsAt.array (hall : ∀ v ∈ elems, Ok io v ∧ ReadsAt len io v) :
    ReadsAt len io (.array elems) := by
  intro tok obj rest hready hdepth _
  have hstart : Leads len io ⟨tok, obj, text io (.array elems) ++ rest⟩
      ⟨tok.level ⟨.eatws, .array, .array [], tok.top.objFieldName⟩ tok.below, obj,
        elemsText io elems ++ rest⟩ := by
    rw [text_array, List.append_assoc]
    refine (leads_space (s := []) hready.state (List.forall_mem_nil _) rfl (by decide)).trans
      (leads_turn ?_)
    rw [hready.savedState]
    rfl
  have hlevel : (tok.level ⟨.eatws, .array, .array [], tok.top.objFieldName⟩ tok.below).depth =
      tok.depth := rfl
  rw [depth]
  cases elems with
  | nil =>
    refine ⟨fun _ => ⟨tok.level ⟨.eatws, .finish, .array [], tok.top.objFieldName⟩ tok.below, obj,
      hstart.trans ?_, rfl, rfl, rfl, rfl, rfl⟩, fun hle => ?_⟩
    · exact (leads_space rfl space_ok rfl (by decide)).trans (leads_turn rfl)
    · rw [elemsDepth, Nat.add_zero] at hle
      exact absurd hdepth (Nat.not_lt.mpr hle)
  | cons v elems =>
    obtain ⟨⟨hok, hreads⟩, hrest⟩ := List.forall_mem_cons.mp hall
    obtain ⟨c, str, hmore, hc⟩ := exists_more io elems rest
    obtain ⟨hinner, hdeep⟩ := reads_inner (tok.level ⟨.eatws, .array, .array [],
      tok.top.objFieldName⟩ tok.below) hreads hok rfl (.inl ⟨rfl, rfl⟩) hc obj str
    have htext : elemsText io (v :: elems) ++ rest = ascii " " ++ (text io v ++ c :: str) := by
      rw [← hmore]
      simp only [elemsText, List.append_assoc]
    rw [htext] at hstart
    rw [elemsDepth]
    rw [hlevel] at hinner hdeep
    by_cases hfits : tok.depth + (depth v + 1) < maxDepth
    · obtain ⟨tok', obj', hleads, hcomplete⟩ := hinner hfits
      have hcurrent : ({ (tok.level ⟨.eatws, .array, .array [], tok.top.objFieldName⟩
          tok.below).top with state := .arrayAdd } : Srec D).current = .array [] := rfl
      obtain ⟨hmoreReads, hmoreDeep⟩ := reads_moreElems hrest hcomplete rfl hcurrent hdepth obj' rest
      rw [hmore] at hmoreReads hmoreDeep
      refine ⟨fun hlt => ?_, fun hle => .of_leads (hstart.trans hleads) (hmoreDeep ?_)⟩
      · obtain ⟨tok'', obj'', hleads', hcomplete'⟩ := hmoreReads
          (show tok.depth + elemsDepth elems < maxDepth by omega)
        exact ⟨tok'', obj'', (hstart.trans hleads).trans hleads', hcomplete'⟩
      · change maxDepth ≤ tok.depth + elemsDepth elems
        omega
    · exact ⟨fun hlt => absurd hlt (by omega), fun _ => .of_leads hstart (hdeep (by omega))⟩

/-! ## Objects -/

variable {fields before : List (Text × Json D)} {key : Text}

variable (len io) in
/-- A field up to the space in front of its value. -/
theorem leads_name (hstate : tok.top.state = .eatws) (hsaved : tok.top.savedState = .objectFieldStart)
    (hkey : 0 ∉ key) (obj : Json D) (rest : Text) : ∃ tok', Leads len io
      ⟨tok, obj, ascii " \"" ++ (key.flatMap escapeChar ++ (ascii "\": " ++ rest))⟩
      ⟨tok', obj, ascii " " ++ rest⟩ ∧
      tok'.top = ⟨.eatws, .objectValue, tok.top.current, some key⟩ ∧ tok'.below = tok.below ∧
      tok'.err = tok.err := by
  obtain ⟨tok', hwithin, hleads⟩ := leads_string len io
    { tok.goto .objectField with pb := [], quoteChar := ch '"' } (.inr rfl) rfl hkey obj
    (ascii ": " ++ rest)
  have hname : tok'.unquote.top = ⟨.eatws, .objectFieldEnd, tok.top.current, some key⟩ := by
    have hne : tok'.top.state ≠ .string := by
      rw [hwithin.state]
      exact State.noConfusion
    rw [Tokener.unquote, if_neg hne, Tokener.setName, Tokener.eatBefore]
    dsimp only
    rw [hwithin.pb, List.nil_append, cString_of_notMem hkey, hwithin.current]
    rfl
  have hbelow : tok'.unquote.below = tok.below ∧ tok'.unquote.err = tok.err := by
    unfold Tokener.unquote
    split_ifs <;> exact ⟨hwithin.below, hwithin.err⟩
  refine ⟨tok'.unquote.level ⟨.eatws, .objectValue, tok.top.current, some key⟩ tok.below, ?_, rfl,
    rfl, hbelow.2⟩
  have hquote : Leads len io
      ⟨tok, obj, ascii " \"" ++ (key.flatMap escapeChar ++ (ascii "\": " ++ rest))⟩
      ⟨{ tok.goto .objectField with pb := [], quoteChar := ch '"' }, obj,
        key.flatMap escapeChar ++ ch '"' :: (ascii ": " ++ rest)⟩ := by
    refine (leads_space (s := ascii " ") hstate space_ok rfl (by decide)).trans (leads_turn ?_)
    rw [hsaved]
    rfl
  refine hquote.trans (hleads.trans ?_)
  generalize tok'.unquote = u at *
  obtain ⟨pb, isDouble, stPos, err, ucsChar, quoteChar, top, below⟩ := u
  obtain ⟨rfl, rfl, rfl⟩ : top = _ ∧ below = _ ∧ err = _ := ⟨hname, hbelow⟩
  exact (leads_space (s := []) rfl (List.forall_mem_nil _) rfl (by decide)).trans (leads_turn rfl)

variable (len io) in
/-- A value is added to its object. -/
theorem Complete.addField {err : Error} (h : Complete v (r :: below) err tok)
    (hstate : r.state = .objectValueAdd) (hcurrent : r.current = .object before)
    (hname : r.objFieldName = some key) (hs : ∀ b ∈ s, isSpace b = true ∧ b ≠ 0)
    (hc : c = ch '}' ∨ c = ch ',') (obj : Json D) (str : Text) :
    Leads len io ⟨tok, obj, s ++ c :: str⟩
      ⟨tok.level ⟨.eatws, if c = ch '}' then .finish else .objectFieldStart,
        .object (objectAdd before key v), none⟩ below, v, str⟩ := by
  have hchar : isSpace c = false ∧ c ≠ ch '/' := by
    rcases hc with rfl | rfl <;> decide
  have hadd : step len io ⟨tok.level r below, v, c :: str⟩ = some (.turn ⟨tok.level
      ⟨.eatws, .objectSep, .object (objectAdd before key v), none⟩ below, v, c :: str⟩) := by
    change turn len io (tok.level r below) v c str = _
    unfold turn
    dsimp only [Tokener.level]
    rw [hstate]
    dsimp only
    rw [hcurrent, hname]
    rfl
  refine (h.pop hs hchar.1 hchar.2 obj str).trans ((leads_turn hadd).trans ?_)
  refine (leads_space (s := []) rfl (List.forall_mem_nil _) hchar.1 hchar.2).trans (leads_turn ?_)
  rcases hc with rfl | rfl <;> rfl

theorem moreFields_cons (e : Text × Json D) (fields : List (Text × Json D)) :
    moreFields io (e :: fields) = ascii "," ++ (fieldText io e ++ moreFields io fields) := by
  simp only [moreFields, List.flatMap_cons, List.append_assoc]

variable (io) in
/-- What follows a field. -/
theorem exists_moreFields (fields : List (Text × Json D)) (rest : Text) : ∃ c str,
    moreFields io fields ++ (ascii " \x7d" ++ rest) = c :: str ∧ c ∉ numberChars := by
  cases fields with
  | nil => exact ⟨ch ' ', _, rfl, space_notMem⟩
  | cons e fields =>
    rw [moreFields_cons]
    exact ⟨ch ',', _, rfl, comma_notMem⟩

variable (tok) in
/-- A field, up to its value. -/
theorem reads_field {e : Text × Json D} (hv : ReadsAt len io e.2) (hok : Ok io e.2)
    (hkey : 0 ∉ e.1) (hstate : tok.top.state = .eatws)
    (hsaved : tok.top.savedState = .objectFieldStart) (hc : c ∉ numberChars) (obj : Json D)
    (str : Text) :
    (tok.depth + fieldDepth e < maxDepth → ∃ tok' obj', Leads len io
        ⟨tok, obj, fieldText io e ++ c :: str⟩ ⟨tok', obj', c :: str⟩ ∧
        Complete e.2 (⟨.objectValueAdd, .objectValue, tok.top.current, some e.1⟩ :: tok.below)
          tok.err tok') ∧
    (maxDepth ≤ tok.depth + fieldDepth e →
      TooDeep len io ⟨tok, obj, fieldText io e ++ c :: str⟩) := by
  obtain ⟨tok₁, hleads, htop, hbelow, herr⟩ := leads_name len io hstate hsaved hkey
    obj (text io e.2 ++ c :: str)
  have htext : fieldText io e ++ c :: str = ascii " \"" ++ (e.1.flatMap escapeChar ++
      (ascii "\": " ++ (text io e.2 ++ c :: str))) := by
    simp only [fieldText, List.append_assoc]
  have hlevel : tok₁.depth = tok.depth := congrArg List.length hbelow
  obtain ⟨hinner, hdeep⟩ := reads_inner tok₁ hv hok (by rw [htop])
    (.inr ⟨by rw [htop], rfl⟩) hc obj str
  rw [hlevel] at hinner hdeep
  rw [htext, fieldDepth_eq]
  refine ⟨fun hlt => ?_, fun hle => .of_leads hleads (hdeep hle)⟩
  obtain ⟨tok', obj', hleads', hcomplete⟩ := hinner hlt
  rw [htop, hbelow, herr] at hcomplete
  exact ⟨tok', obj', hleads.trans hleads', hcomplete⟩

/-- The fields behind the first one. -/
theorem reads_moreFields {err : Error}
    (hall : ∀ e ∈ fields, 0 ∉ e.1 ∧ Ok io e.2 ∧ ReadsAt len io e.2)
    (hnames : ((before ++ (key, v) :: fields).map Prod.fst).Nodup)
    (h : Complete v (r :: below) err tok) (hstate : r.state = .objectValueAdd)
    (hcurrent : r.current = .object before) (hname : r.objFieldName = some key)
    (hdepth : below.length < maxDepth) (obj : Json D) (rest : Text) :
    (below.length + fieldsDepth fields < maxDepth → ∃ tok' obj', Leads len io
        ⟨tok, obj, moreFields io fields ++ (ascii " \x7d" ++ rest)⟩ ⟨tok', obj', rest⟩ ∧
        Complete (.object (before ++ (key, v) :: fields)) below err tok') ∧
    (maxDepth ≤ below.length + fieldsDepth fields →
      TooDeep len io ⟨tok, obj, moreFields io fields ++ (ascii " \x7d" ++ rest)⟩) := by
  have hkey : key ∉ before.map Prod.fst := by
    rw [List.map_append, List.map_cons] at hnames
    exact fun hmem => List.disjoint_of_nodup_append hnames hmem List.mem_cons_self
  induction fields generalizing v key r tok before obj with
  | nil =>
    have hlast := h.addField len io hstate hcurrent hname space_ok (.inl rfl) obj
      rest
    rw [objectAdd_of_notMem hkey] at hlast
    refine ⟨fun _ => ⟨_, v, hlast, rfl, rfl, rfl, rfl, h.err⟩, fun hle => ?_⟩
    rw [fieldsDepth, Nat.add_zero] at hle
    exact absurd hdepth (Nat.not_lt.mpr hle)
  | cons e fields ih =>
    obtain ⟨⟨hstring, hok, hreads⟩, hrest⟩ := List.forall_mem_cons.mp hall
    obtain ⟨c, str, hmore, hc⟩ := exists_moreFields io fields rest
    have hnext := h.addField len io (s := []) hstate hcurrent hname
      (List.forall_mem_nil _) (.inr rfl) obj (fieldText io e ++ c :: str)
    rw [if_neg (by decide), objectAdd_of_notMem hkey] at hnext
    have htext : moreFields io (e :: fields) ++ (ascii " \x7d" ++ rest) =
        [] ++ ch ',' :: (fieldText io e ++ c :: str) := by
      rw [moreFields_cons, ← hmore]
      simp only [List.append_assoc]
      rfl
    rw [htext, fieldsDepth]
    obtain ⟨hfield, hdeep⟩ := reads_field (tok.level ⟨.eatws, .objectFieldStart,
      .object (before ++ [(key, v)]), none⟩ below) hreads hok hstring rfl rfl hc v str
    have hlevel : (tok.level ⟨.eatws, .objectFieldStart, .object (before ++ [(key, v)]), none⟩
        below).depth = below.length := rfl
    rw [hlevel] at hfield hdeep
    have hnames' : ((before ++ [(key, v)] ++ (e.1, e.2) :: fields).map Prod.fst).Nodup := by
      simpa using hnames
    by_cases hfits : below.length + fieldDepth e < maxDepth
    · obtain ⟨tok', obj', hleads, hcomplete⟩ := hfield hfits
      obtain ⟨hmoreReads, hmoreDeep⟩ := ih hrest hnames' (h.err ▸ hcomplete) rfl rfl rfl obj' (by
        rw [List.map_append, List.map_cons] at hnames'
        exact fun hmem => List.disjoint_of_nodup_append hnames' hmem List.mem_cons_self)
      rw [hmore] at hmoreReads hmoreDeep
      refine ⟨fun hlt => ?_, fun hle => .of_leads (hnext.trans hleads) (hmoreDeep (by omega))⟩
      obtain ⟨tok'', obj'', hleads', hcomplete'⟩ := hmoreReads (by omega)
      refine ⟨tok'', obj'', (hnext.trans hleads).trans hleads', ?_⟩
      rw [List.append_assoc] at hcomplete'
      exact hcomplete'
    · exact ⟨fun hlt => absurd hlt (by omega), fun _ => .of_leads hnext (hdeep (by omega))⟩

theorem ReadsAt.object (hall : ∀ e ∈ fields, 0 ∉ e.1 ∧ Ok io e.2 ∧ ReadsAt len io e.2)
    (hnames : (fields.map Prod.fst).Nodup) : ReadsAt len io (.object fields) := by
  intro tok obj rest hready hdepth _
  have hstart : Leads len io ⟨tok, obj, text io (.object fields) ++ rest⟩
      ⟨tok.level ⟨.eatws, .objectFieldStart, .object [], tok.top.objFieldName⟩ tok.below, obj,
        fieldsText io fields ++ rest⟩ := by
    rw [text_object, List.append_assoc]
    refine (leads_space (s := []) hready.state (List.forall_mem_nil _) rfl (by decide)).trans
      (leads_turn ?_)
    rw [hready.savedState]
    rfl
  rw [depth]
  cases fields with
  | nil =>
    refine ⟨fun _ => ⟨tok.level ⟨.eatws, .finish, .object [], tok.top.objFieldName⟩ tok.below, obj,
      hstart.trans ?_, rfl, rfl, rfl, rfl, rfl⟩, fun hle => ?_⟩
    · exact (leads_space rfl space_ok rfl (by decide)).trans (leads_turn rfl)
    · rw [fieldsDepth, Nat.add_zero] at hle
      exact absurd hdepth (Nat.not_lt.mpr hle)
  | cons e fields =>
    obtain ⟨⟨hstring, hok, hreads⟩, hrest⟩ := List.forall_mem_cons.mp hall
    obtain ⟨c, str, hmore, hc⟩ := exists_moreFields io fields rest
    obtain ⟨hfield, hdeep⟩ := reads_field (tok.level ⟨.eatws, .objectFieldStart, .object [],
      tok.top.objFieldName⟩ tok.below) hreads hok hstring rfl rfl hc obj str
    have hlevel : (tok.level ⟨.eatws, .objectFieldStart, .object [], tok.top.objFieldName⟩
        tok.below).depth = tok.depth := rfl
    have htext : fieldsText io (e :: fields) ++ rest = fieldText io e ++ c :: str := by
      rw [← hmore]
      simp only [fieldsText, List.append_assoc]
    rw [htext] at hstart
    rw [fieldsDepth]
    rw [hlevel] at hfield hdeep
    by_cases hfits : tok.depth + fieldDepth e < maxDepth
    · obtain ⟨tok', obj', hleads, hcomplete⟩ := hfield hfits
      have hbefore : (([] ++ (e.1, e.2) :: fields).map Prod.fst).Nodup := hnames
      obtain ⟨hmoreReads, hmoreDeep⟩ :=
        reads_moreFields hrest hbefore hcomplete rfl rfl rfl hdepth obj' rest
      rw [hmore] at hmoreReads hmoreDeep
      refine ⟨fun hlt => ?_, fun hle => .of_leads (hstart.trans hleads) (hmoreDeep ?_)⟩
      · obtain ⟨tok'', obj'', hleads', hcomplete'⟩ := hmoreReads
          (show tok.depth + fieldsDepth fields < maxDepth by omega)
        exact ⟨tok'', obj'', (hstart.trans hleads).trans hleads', hcomplete'⟩
      · change maxDepth ≤ tok.depth + fieldsDepth fields
        omega
    · exact ⟨fun hlt => absurd hlt (by omega), fun _ => .of_leads hstart (hdeep (by omega))⟩

/-! ## The round trip -/

theorem readsAt (h : Ok io v) : ReadsAt len io v := by
  have hword : ∀ {v : Json D} {rest : Text}, Follows v rest → ¬ Closed v →
      ∃ c str, rest = c :: str ∧ c ∉ numberChars := by
    intro v rest hfollows hopen
    cases rest with
    | nil => exact absurd hfollows hopen
    | cons c str => exact ⟨c, str, rfl, hfollows⟩
  induction h with
  | null =>
    refine .of_depth_zero rfl fun tok obj rest hready hfollows => ?_
    obtain ⟨c, str, rfl, -⟩ := hword hfollows id
    exact reads_null hready c str
  | boolean b =>
    refine .of_depth_zero rfl fun tok obj rest hready hfollows => ?_
    obtain ⟨c, str, rfl, -⟩ := hword hfollows id
    exact reads_boolean hready b c str
  | double hd =>
    refine .of_depth_zero rfl fun tok obj rest hready hfollows => ?_
    obtain ⟨c, str, rfl, hc⟩ := hword hfollows id
    exact reads_double hready hd hc
  | int i =>
    refine .of_depth_zero rfl fun tok obj rest hready hfollows => ?_
    obtain ⟨c, str, rfl, hc⟩ := hword hfollows id
    exact reads_int hready i hc
  | object names strings values ih =>
    exact .object (fun e he => ⟨strings e he, values e he, ih e he⟩) names
  | array values ih => exact .array fun v hv => ⟨values v hv, ih v hv⟩
  | string hs => exact .of_depth_zero rfl fun tok obj rest hready _ => reads_string hready hs rest

theorem run_unique {fuel fuel' : ℕ} (h : run len io fuel x = some tok)
    (h' : run len io fuel' x = some tok') : tok = tok' := by
  have hmax := run_mono h (Nat.le_max_left fuel fuel')
  rw [run_mono h' (Nat.le_max_right fuel fuel')] at hmax
  exact (Option.some.inj hmax).symm

/-- A new tokener at the start of a text. -/
theorem ready_new : Ready (Tokener.new.fail .success : Tokener D) := ⟨rfl, rfl⟩

variable (len io) in
/-- At the null character, a value on the lowest level is the result. -/
theorem Complete.outNull (h : Complete v [] .success tok) (obj : Json D) :
    ∃ tok', run len io 2 ⟨tok, obj, [0]⟩ = some tok' ∧ tok'.err = .success ∧
      tok'.top.current = v := by
  obtain ⟨pb, isDouble, stPos, err, ucsChar, quoteChar, ⟨state, savedState, current, name⟩, below⟩ :=
    tok
  obtain ⟨rfl, rfl, rfl, rfl, rfl⟩ : state = .eatws ∧ savedState = .finish ∧ current = v ∧
    below = [] ∧ err = .success := ⟨h.state, h.savedState, h.current, h.below, h.err⟩
  exact ⟨_, rfl, rfl, rfl⟩

variable (io) in
/-- At the end of a text whose length is given, it is the result as well. -/
theorem Complete.outEnd (h : Complete v [] .success tok) (obj : Json D) :
    ∃ tok', run true io 1 ⟨tok, obj, []⟩ = some tok' ∧ tok'.err = .success ∧
      tok'.top.current = v := by
  obtain ⟨pb, isDouble, stPos, err, ucsChar, quoteChar, ⟨state, savedState, current, name⟩, below⟩ :=
    tok
  obtain ⟨rfl, rfl, rfl, rfl, rfl⟩ : state = .eatws ∧ savedState = .finish ∧ current = v ∧
    below = [] ∧ err = .success := ⟨h.state, h.savedState, h.current, h.below, h.err⟩
  exact ⟨_, rfl, rfl, rfl⟩

/-- A call with enough turns has the result of any run. -/
theorem parseEx_eq {fuel k : ℕ} {str : Text} (hnull : len = false → 0 ∈ str)
    (hfuel : 10 * str.length + 10 ≤ fuel)
    (h : run len io k ⟨Tokener.new.fail .success, .null, str⟩ = some tok) :
    parseEx len io fuel Tokener.new str =
      some (tok, if tok.err = .success then tok.top.current else .null) := by
  obtain ⟨tok', hrun, -⟩ : ∃ tok, run len io fuel ⟨Tokener.new.fail .success, .null, str⟩ =
      some tok ∧ Inv tok := run_fine (x := ⟨Tokener.new.fail .success, .null, str⟩)
        (inv_new.fail _) hnull (by
      have hrank := (Tokener.new : Tokener D).top.rank_le
      change 10 * str.length + (Tokener.new : Tokener D).top.rank < fuel
      omega)
  rw [parseEx, hrun, run_unique hrun h]
  rfl

/-- What was written is read again, if the stack of the tokener is deep enough for it. -/
theorem parse_text (h : Ok io v) {fuel : ℕ} (hfuel : 10 * (text io v).length + 20 ≤ fuel) :
    parse io fuel (text io v) =
      some (if depth v < maxDepth then .ok v else .error .depth) := by
  have hnull : (false = false → 0 ∈ text io v ++ [0]) := fun _ => by simp
  have hlen : 10 * (text io v ++ [0]).length + 10 ≤ fuel := by
    rw [List.length_append, List.length_singleton]
    omega
  have hfollows : Follows v [0] := show (0 : Byte) ∉ numberChars by decide
  have hnew : (Tokener.new.fail .success : Tokener D).depth = 0 := rfl
  obtain ⟨hreads, hdeep⟩ : (_ → Reads false io _ _ _ _ _) ∧ _ :=
    readsAt h (Tokener.new.fail .success) .null [0] ready_new (Nat.zero_lt_succ 31) hfollows
  rw [hnew, Nat.zero_add] at hreads hdeep
  unfold parse
  by_cases hdepth : depth v < maxDepth
  · obtain ⟨tok', obj', ⟨k, hk⟩, hcomplete⟩ := hreads hdepth
    obtain ⟨tok, hrun, herr, hcurrent⟩ := hcomplete.outNull false io obj'
    rw [← hk 2] at hrun
    rw [parseEx_eq hnull hlen hrun, if_pos hdepth, Option.map_some, if_pos herr, hcurrent]
    exact congrArg some (if_pos herr)
  · obtain ⟨k, tok, herr, hrun⟩ := hdeep (Nat.not_lt.mp hdepth)
    rw [parseEx_eq hnull hlen (hrun 0), if_neg hdepth, Option.map_some]
    simp only [herr, reduceCtorEq, ↓reduceIte]

/-- A player with a list of scores. -/
def scores : Json Unit :=
  .object [(ascii "name", .string (ascii "a\"b/c")),
    (ascii "scores", .array [.int 7, .null, .boolean true, .object []])]

theorem ok_scores : Ok noDoubles scores := by
  refine .object (by decide) (by decide) (List.forall_mem_cons.mpr ⟨.string (by decide), ?_⟩)
  refine List.forall_mem_singleton.mpr (.array (List.forall_mem_cons.mpr ⟨.int 7, ?_⟩))
  refine List.forall_mem_cons.mpr ⟨.null, List.forall_mem_cons.mpr ⟨.boolean true, ?_⟩⟩
  exact List.forall_mem_singleton.mpr (.object List.nodup_nil nofun nofun)

theorem parse_text_scores :
    parse noDoubles (10 * (text noDoubles scores).length + 20) (text noDoubles scores) =
      some (.ok scores) :=
  parse_text ok_scores (Nat.le_refl _)

/-- With a length, an object, an array or a string is read as well. -/
theorem parseEx_text (h : Ok io v) (hclosed : Closed v) {fuel : ℕ}
    (hfuel : 10 * (text io v).length + 20 ≤ fuel) :
    ∃ tok obj, parseEx true io fuel Tokener.new (text io v) = some (tok, obj) ∧
      (depth v < maxDepth → tok.err = .success ∧ obj = v) ∧
      (maxDepth ≤ depth v → tok.err = .depth) := by
  have hnull : (true = false → 0 ∈ text io v) := nofun
  have hnew : (Tokener.new.fail .success : Tokener D).depth = 0 := rfl
  obtain ⟨hreads, hdeep⟩ : (_ → Reads true io _ _ _ _ _) ∧ _ :=
    readsAt h (Tokener.new.fail .success) .null [] ready_new (Nat.zero_lt_succ 31) hclosed
  rw [hnew, Nat.zero_add] at hreads hdeep
  by_cases hdepth : depth v < maxDepth
  · obtain ⟨tok', obj', ⟨k, hk⟩, hcomplete⟩ := hreads hdepth
    obtain ⟨tok, hrun, herr, hcurrent⟩ := hcomplete.outEnd io obj'
    rw [← hk 1, List.append_nil] at hrun
    refine ⟨tok, _, parseEx_eq hnull (by omega) hrun, fun _ => ⟨herr, ?_⟩, fun hle => ?_⟩
    · rw [if_pos herr, hcurrent]
    · exact absurd hdepth (Nat.not_lt.mpr hle)
  · obtain ⟨k, tok, herr, hrun⟩ := hdeep (Nat.not_lt.mp hdepth)
    rw [List.append_nil] at hrun
    exact ⟨tok, _, parseEx_eq hnull (by omega) (hrun 0), fun hlt => absurd hlt hdepth,
      fun _ => herr⟩

end JsonTokener

end DreamDota
