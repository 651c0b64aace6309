import ExprScript.Proofs.Build.Readable

/-! # Names that are read back

Whether a text is a name is decided by the scanner, which decodes escapes, while the tree keeps
the text as it is. So a name is read back exactly if it is written without escapes. A key that
is no identifier is quoted, and is read back whatever its characters are.
-/

namespace ExprScript

open Reader

/-! ## The names of a node -/

def PropertyKey.name? : PropertyKey → Option PropertyKey
  | .name id => some (.name id.erase)
  | .string literal => some (.string literal.erase)
  | .number _ | .computed _ => none

def Property.name? : Property → Option PropertyKey
  | .field _ key _ _ => key.name?
  | .spread _ _ => none

/-- The name of a variable or of a member, or the names of the properties of an object. -/
def Expr.names : Expr → List (Option PropertyKey)
  | .ident id => [some (.name id.erase)]
  | .member _ _ (.name id) _ => [some (.name id.erase)]
  | .object _ properties => properties.map Property.name?
  | _ => []

namespace Expr

theorem names_erase (expr : Expr) : expr.erase.names = expr.names := by
  cases expr with
  | update loc op fixity argument => cases fixity <;> rfl
  | member loc owner key optional => cases key <;> rfl
  | object loc properties =>
      rw [erase, names, names]
      induction properties with
      | nil => rfl
      | cons property properties induction =>
          rw [eraseProperties, List.map_cons, List.map_cons, induction]
          cases property with
          | spread => rfl
          | field loc key value shorthand => cases key <;> rfl
  | _ => rfl

theorem names_canonical (expr : Expr) : expr.canonical.names = expr.names := by
  cases expr with
  | number literal =>
      rw [canonical, NumberLiteral.canonical]
      split <;> rfl
  | binary loc op left right =>
      rw [canonical]
      split <;> rfl
  | update loc op fixity argument => cases fixity <;> rfl
  | member loc owner key optional => cases key <;> rfl
  | object loc properties =>
      rw [canonical, names, names]
      induction properties with
      | nil => rfl
      | cons property properties induction =>
          cases property with
          | spread => rw [canonicalProperties, List.map_cons, List.map_cons, induction]; rfl
          | field loc key value shorthand =>
              rw [canonicalProperties, List.map_cons, List.map_cons, induction]
              cases key <;> rfl
  | _ => rfl

def isNamed (name : String) : Expr → Bool
  | .ident id => id.name == name
  | _ => false

theorem names_of_isNamed {name : String} {expr : Expr} (isNamed : expr.isNamed name = true) :
    expr.names = [some (.name { name })] := by
  cases expr with
  | ident id => rw [names, Ident.erase, eq_of_beq isNamed]
  | _ => cases isNamed

end Expr

theorem Expr.Grammatical.nameText_of_names {expr : Expr} (grammatical : expr.Grammatical)
    {id : Ident} (member : some (.name id) ∈ expr.names) : NameText id.name.toList := by
  have lexical := grammatical.1.2
  cases expr with
  | ident id' =>
      cases List.mem_singleton.mp member
      exact (Ident.Read.asKey lexical).nameText
  | member loc owner key optional =>
      cases key with
      | name id' =>
          cases List.mem_singleton.mp member
          exact Ident.ReadAsKey.nameText lexical
      | computed key => cases member
  | object loc properties =>
      rcases List.mem_map.mp member with ⟨property, within, named⟩
      have lexical := lexical property within
      cases property with
      | spread => cases named
      | field loc key value shorthand =>
          cases key with
          | name id' =>
              cases named
              exact Ident.ReadAsKey.nameText lexical
          | string | number | computed => cases named
  | _ => cases member

theorem Reader.NameText.no_escape {text : List Char} (name : NameText text) : '\\' ∉ text := by
  intro member
  cases text with
  | nil => cases member
  | cons c rest =>
      rcases List.mem_cons.mp member with rfl | member
      · exact absurd name.1 (by decide)
      · exact absurd (name.2 _ member) (by decide)

namespace Build

variable {bare : List String} {expr : Expr}

/-! ## Trees with names -/

/-- A tree that is built with these names, besides those that are quoted. -/
inductive Named : List String → Expr → Prop
  | identifier {name : String} {expr : Expr} (built : identifier name = .ok expr) :
      Named [name] expr
  | member {owner : Expr} {name : String} {optional : Bool} {expr : Expr}
      (readable : Readable owner) (built : member owner name optional = .ok expr) :
      Named [name] expr
  | object (fields : List (String × Expr)) (readable : ∀ field ∈ fields, Readable field.2) :
      Named ((fields.map Prod.fst).filter isIdentifier) (object fields)

theorem names_object (fields : List (String × Expr)) :
    (object fields).names = (fields.map Prod.fst).map fun key => some (fieldKey key) := by
  rw [object, Expr.names, List.map_map, List.map_map]
  apply List.map_congr_left
  rintro ⟨key, value⟩ -
  change (fieldKey key).name? = some (fieldKey key)
  rw [fieldKey]
  split <;> rfl

theorem Named.name_mem (named : Named bare expr) {name : String} (within : name ∈ bare) :
    some (.name { name }) ∈ expr.names := by
  cases named with
  | identifier built =>
      cases List.mem_singleton.mp within
      rcases identifier_eq_ok built with ⟨-, rfl⟩
      exact List.mem_singleton.mpr rfl
  | member readable built =>
      cases List.mem_singleton.mp within
      rcases member_eq_ok built with ⟨-, rfl⟩
      exact List.mem_singleton.mpr rfl
  | object fields readable =>
      rcases List.mem_filter.mp within with ⟨isKey, accepted⟩
      have isName : fieldKey name = .name { name } := if_pos accepted
      rw [names_object]
      exact List.mem_map.mpr ⟨name, isKey, congrArg some isName⟩

theorem Named.stable (named : Named bare expr) (plain : ∀ name ∈ bare, '\\' ∉ name.toList) :
    ∃ tree, Stable tree ∧ tree.shown = expr.shown ∧ tree.canonical.kind = expr.kind ∧
      tree.names = expr.names := by
  cases named with
  | identifier built =>
      have faithful := faithful_identifier (plain _ (List.mem_singleton.mpr rfl)) built
      rcases identifier_eq_ok built with ⟨-, rfl⟩
      exact ⟨_, ⟨faithful.written, rfl⟩, rfl, rfl, rfl⟩
  | member readable built =>
      rcases readable.member (plain _ (List.mem_singleton.mpr rfl)) built with
        ⟨start, stable, same⟩
      rcases member_eq_ok built with ⟨-, rfl⟩
      exact ⟨_, stable, same, rfl, rfl⟩
  | object fields readable =>
      have unescaped : ∀ field ∈ fields, isIdentifier field.1 = true → '\\' ∉ field.1.toList :=
        fun field member accepted =>
          plain _ (List.mem_filter.mpr ⟨List.mem_map_of_mem member, accepted⟩)
      rcases Readable.object unescaped readable with ⟨trees, keys, stable, same⟩
      refine ⟨_, stable, same, rfl, ?_⟩
      rw [names_object, names_object, keys]

/-! ## Reading them back -/

/-- A variable, a member or an object that was built is read back as a node with the same
names, which does in every scope what the built one does, exactly if none of the names that are
not quoted has an escape. -/
theorem parse_named_iff (named : Named bare expr) :
    (∃ found, parse expr.print = .ok found ∧ found.kind = expr.kind ∧
      found.names = expr.names ∧ found.Agrees expr) ↔ ∀ name ∈ bare, '\\' ∉ name.toList := by
  constructor
  · rintro ⟨found, parsed, -, same, -⟩ name within
    have member : some (.name { name }) ∈ found.names := same ▸ named.name_mem within
    exact ((parse_grammatical parsed).1.nameText_of_names member).no_escape
  · intro plain
    rcases named.stable plain with ⟨tree, stable, same, kind, names⟩
    rcases stable.parse same with ⟨found, parsed, equal, shown⟩
    refine ⟨found, parsed, ?_, ?_, Expr.agrees_of_shown shown⟩
    · rw [← found.kind_erase, equal, Expr.kind_erase, kind]
    · rw [← found.names_erase, equal, Expr.names_erase, Expr.names_canonical, names]

/-- The first key is written as it is. The second one has an escape in it, and as it also has
a blank, it is quoted. -/
theorem parse_named_iff_quoted :
    let expr := object [("key", null), ("\\u0061 b", this)]
    Named ["key"] expr ∧
      ((∃ found, parse expr.print = .ok found ∧ found.kind = expr.kind ∧
        found.names = expr.names ∧ found.Agrees expr) ↔
          ∀ name ∈ ["key"], '\\' ∉ name.toList) ∧
      ∀ name ∈ ["key"], '\\' ∉ name.toList := by
  have null : Readable null := Built.null.readable ⟨nofun, trivial⟩
  have this : Readable this := Built.this.readable ⟨nofun, trivial⟩
  have named := Named.object [("key", Build.null), ("\\u0061 b", Build.this)]
    (by simp [null, this])
  have bare : (["key", "\\u0061 b"] : List String).filter isIdentifier = ["key"] := by
    decide +kernel
  rw [List.map_cons, List.map_cons, List.map_nil, bare] at named
  exact ⟨named, parse_named_iff named, by decide⟩

/-- A name that is written with an escape is read as the name that the escape stands for. -/
theorem not_parse_named_escape : ∃ expr found, identifier "\\u0061" = .ok expr ∧
    parse expr.print = .ok found ∧ found.names ≠ expr.names := by
  have built : identifier "\\u0061" = .ok (.ident { name := "\\u0061" }) :=
    if_pos (by decide +kernel)
  have reads : (parse (Expr.ident { name := "\\u0061" }).print).toOption.any
      (·.isNamed "a") = true := by
    decide +kernel
  rcases exists_ok_of_any reads with ⟨found, parsed, isNamed⟩
  refine ⟨_, found, built, parsed, ?_⟩
  rw [Expr.names_of_isNamed isNamed]
  simp [Expr.names, Ident.erase]

end Build

end ExprScript
