import LayeredConfig.Config.Basic
import LayeredConfig.Proofs.Lookup
import LayeredConfig.Proofs.Path
import Mathlib.Data.List.Induction

/-!
# Joined paths

Splitting turns joining of texts into joining of key lists, so a path that is
joined from two others goes on from the value at the end of the first.  Where the
way is blocked behind it, the place is told with the first path in front.
-/

namespace LayeredConfig

namespace Path

theorem ofText_ne_nil (t : String) : ofText t ≠ [] := (ofText_written t).1

theorem ofText_join (p q : String) : ofText (join p q) = ofText p ++ ofText q := by
  have hsplit : (p.toList ++ '.' :: q.toList).splitOn '.' =
      p.toList.splitOn '.' ++ q.toList.splitOn '.' := by
    rw [List.splitOn_eq_splitOnP, List.splitOn_eq_splitOnP, List.splitOn_eq_splitOnP]
    exact List.splitOnP_append_cons _ _ (beq_self_eq_true '.')
  rw [ofText, join, String.toList_append, String.toList_append, List.append_assoc]
  exact (congrArg (List.map String.ofList) hsplit).trans List.map_append

/-- The keys of a text are joined to the text again. -/
theorem text_ofText (t : String) : text (ofText t) = t := by
  apply String.toList_inj.mp
  rw [text, String.toList_intercalate, ofText, List.map_map]
  have hid : String.toList ∘ String.ofList = id := funext fun cs ↦ String.toList_ofList
  rw [hid, List.map_id]
  exact List.intercalate_splitOn '.'

theorem join_assoc (p q r : String) : join (join p q) r = join p (join q r) := by
  simp only [join, String.append_assoc]

theorem text_singleton (key : String) : text [key] = key := String.intercalate_singleton

theorem text_cons {rest : Path} (key : String) (hrest : rest ≠ []) :
    text (key :: rest) = join key (text rest) := by
  obtain ⟨next, others, rfl⟩ := List.exists_cons_of_ne_nil hrest
  exact String.intercalate_cons_cons

theorem text_append {p q : Path} (hp : p ≠ []) (hq : q ≠ []) :
    text (p ++ q) = join (text p) (text q) := by
  induction p with
  | nil => exact absurd rfl hp
  | cons key rest ih =>
      rw [List.cons_append, text_cons key (List.append_ne_nil_of_right_ne_nil rest hq)]
      by_cases hrest : rest = []
      · rw [hrest, List.nil_append, text_singleton]
      · rw [ih hrest, text_cons key hrest, join_assoc]

/-- The text of a path is its keys joined one after the other. -/
theorem text_eq_foldl_join (key : String) (rest : Path) :
    text (key :: rest) = rest.foldl join key := by
  induction rest using List.reverseRecOn with
  | nil => exact text_singleton key
  | append_singleton rest last ih =>
      rw [← List.cons_append, text_append (List.cons_ne_nil key rest) (List.cons_ne_nil last []),
        ih, text_singleton, List.foldl_append, List.foldl_cons, List.foldl_nil]

end Path

namespace Value

/-- The outcome of a walk that goes on behind `place` with `rest`, from the
outcome of the walk to `place`. -/
def walkOnward (place rest : Path) :
    Except Blocked (Option Value) → Except Blocked (Option Value)
  | .ok none => .ok none
  | .ok (some (.object inner)) => (walk inner rest).mapError fun b ↦ ⟨place ++ b.place, b.kind⟩
  | .ok (some v) => .error ⟨place, v.kind⟩
  | .error b => .error b

theorem walkOnward_other {v : Value} (hv : v.isObject = false) (place rest : Path) :
    walkOnward place rest (.ok (some v)) = .error ⟨place, v.kind⟩ := by
  cases v <;> simp_all [walkOnward, isObject]

theorem mapError_walkOnward (key : String) (place rest : Path)
    (r : Except Blocked (Option Value)) :
    (walkOnward place rest r).mapError (Blocked.under key) =
      walkOnward (key :: place) rest (r.mapError (Blocked.under key)) := by
  rcases r with b | _ | v
  · rfl
  · rfl
  · rw [mapError_ok]
    cases hv : v.isObject with
    | false =>
        rw [walkOnward_other hv, walkOnward_other hv]
        rfl
    | true =>
        obtain ⟨inner, rfl⟩ := exists_object hv
        rw [walkOnward, walkOnward]
        cases walk inner rest <;> rfl

theorem walk_append (members : Members Text Value) {p q : Path} (hp : p ≠ []) (hq : q ≠ []) :
    walk members (p ++ q) = walkOnward p q (walk members p) := by
  induction p generalizing members with
  | nil => exact absurd rfl hp
  | cons key rest ih =>
      have hmore : rest ++ q ≠ [] := List.append_ne_nil_of_right_ne_nil rest hq
      rw [List.cons_append]
      cases hget : members.get? key with
      | none => rw [walk_cons_none hget, walk_cons_none hget, walkOnward]
      | some v =>
          by_cases hrest : rest = []
          · subst hrest
            rw [walk_singleton, hget]
            cases hv : v.isObject with
            | false => rw [walk_cons_other hmore hget hv, walkOnward_other hv]
            | true =>
                obtain ⟨inner, rfl⟩ := exists_object hv
                exact walk_cons_object hmore hget
          · cases hv : v.isObject with
            | false =>
                rw [walk_cons_other hmore hget hv, walk_cons_other hrest hget hv, walkOnward]
            | true =>
                obtain ⟨inner, rfl⟩ := exists_object hv
                rw [walk_cons_object hmore hget, walk_cons_object hrest hget, ih inner hrest,
                  mapError_walkOnward]

/-- The outcome of a path that goes on behind `p` with `q`, from the outcome of
`p`. -/
def findOnward (p q : String) :
    Except Traversal (Option Value) → Except Traversal (Option Value)
  | .ok none => .ok none
  | .ok (some (.object inner)) =>
    (find inner (Path.ofText q)).mapError fun t ↦ ⟨Path.join p q, Path.join p t.place, t.kind⟩
  | .ok (some v) => .error ⟨Path.join p q, p, v.kind⟩
  | .error t => .error ⟨Path.join p q, t.place, t.kind⟩

theorem findOnward_other {v : Value} (hv : v.isObject = false) (p q : String) :
    findOnward p q (.ok (some v)) = .error ⟨Path.join p q, p, v.kind⟩ := by
  cases v <;> simp_all [findOnward, isObject]

theorem find_ofText_join (members : Members Text Value) (p : String) {q : String}
    (hq : (Path.ofText q).any String.isEmpty = false) :
    find members (Path.ofText (Path.join p q)) =
      findOnward p q (find members (Path.ofText p)) := by
  have hpne := Path.ofText_ne_nil p
  have hqne := Path.ofText_ne_nil q
  have hany : (Path.ofText (Path.join p q)).any String.isEmpty =
      (Path.ofText p).any String.isEmpty := by
    rw [Path.ofText_join, List.any_append, hq, Bool.or_false]
  cases hp : (Path.ofText p).any String.isEmpty with
  | true => rw [find, find, hany, hp, if_pos rfl, if_pos rfl, findOnward]
  | false =>
      rw [find_eq_of_walk (hany.trans hp), find_eq_of_walk hp, Path.text_ofText, Path.text_ofText,
        Path.ofText_join, walk_append members hpne hqne]
      rcases walk members (Path.ofText p) with b | _ | v
      · rfl
      · rfl
      · rw [mapError_ok]
        cases hv : v.isObject with
        | false => rw [walkOnward_other hv, findOnward_other hv, mapError_error, Path.text_ofText]
        | true =>
            obtain ⟨inner, rfl⟩ := exists_object hv
            rw [walkOnward, findOnward, find_eq_of_walk hq]
            cases hinner : walk inner (Path.ofText q) with
            | ok found => rfl
            | error b =>
                obtain ⟨-, -, hplace, -⟩ := walk_error_cases hinner
                simp only [mapError_error, Path.text_append hpne hplace, Path.text_ofText]

end Value

namespace Config

/-- The object at a path, by what is found there. -/
theorem getConfig_eq (c : Config) (path : String) : c.getConfig path =
    match c.get path with
    | .ok (some (.object members)) => .ok ⟨.object members⟩
    | .ok (some v) => .error (.mismatch .object path v.kind)
    | .ok none => .error (.notFound path)
    | .error t => .error (.traversal t) := by
  rw [getConfig, getObject, require]
  rcases c.get path with t | _ | v
  · rfl
  · rfl
  · cases v <;> rfl

theorem get_join (c : Config) (p : String) {q : String}
    (hq : (Path.ofText q).any String.isEmpty = false) :
    c.get (Path.join p q) = match c.getConfig p with
      | .ok inner =>
        (inner.get q).mapError fun t ↦ ⟨Path.join p q, Path.join p t.place, t.kind⟩
      | .error (.traversal t) => .error ⟨Path.join p q, t.place, t.kind⟩
      | .error (.mismatch _ _ kind) => .error ⟨Path.join p q, p, kind⟩
      | .error _ => .ok none := by
  rw [getConfig_eq, get, get]
  cases c.root
  case object members =>
    dsimp only
    rw [Value.find_ofText_join members p hq]
    rcases Value.find members (Path.ofText p) with t | _ | v
    · rfl
    · rfl
    · cases v <;> rfl
  all_goals rfl

end Config

/-- A joined path leads where its second part leads from the object at its first
part, and is blocked where either part is; reading the object as a configuration and
then the second part from it comes to the same.  The keys of a joined path are those
that were joined, so different lists of keys are joined to different paths. -/
theorem lookup_join :
    (∀ (members : Members Text Value) (p q : String), (∀ key ∈ Path.ofText q, key ≠ "") →
      Value.find members (Path.ofText (Path.join p q)) =
        match Value.find members (Path.ofText p) with
        | .ok none => .ok none
        | .ok (some (.object inner)) =>
          (Value.find inner (Path.ofText q)).mapError fun t ↦
            ⟨Path.join p q, Path.join p t.place, t.kind⟩
        | .ok (some v) => .error ⟨Path.join p q, p, v.kind⟩
        | .error t => .error ⟨Path.join p q, t.place, t.kind⟩) ∧
    (∀ (c : Config) (p q : String), (∀ key ∈ Path.ofText q, key ≠ "") →
      c.get (Path.join p q) = match c.getConfig p with
        | .ok inner =>
          (inner.get q).mapError fun t ↦ ⟨Path.join p q, Path.join p t.place, t.kind⟩
        | .error (.traversal t) => .error ⟨Path.join p q, t.place, t.kind⟩
        | .error (.mismatch _ _ kind) => .error ⟨Path.join p q, p, kind⟩
        | .error _ => .ok none) ∧
    ∀ (key : String) (rest : Path), Path.Written (key :: rest) →
      Path.ofText (rest.foldl Path.join key) = key :: rest ∧
      ∀ (key' : String) (rest' : Path), Path.Written (key' :: rest') →
        rest.foldl Path.join key = rest'.foldl Path.join key' → key :: rest = key' :: rest' := by
  have hany {q : String} (hq : ∀ key ∈ Path.ofText q, key ≠ "") :
      (Path.ofText q).any String.isEmpty = false := by
    simpa [List.any_eq_false] using hq
  have hsplit {key : String} {rest : Path} (h : Path.Written (key :: rest)) :
      Path.ofText (rest.foldl Path.join key) = key :: rest := by
    rw [← Path.text_eq_foldl_join, Path.ofText_text h]
  refine ⟨fun members p q hq ↦ ?_, fun c p q hq ↦ c.get_join p (hany hq), ?_⟩
  · exact Value.find_ofText_join members p (hany hq)
  · intro key rest h
    refine ⟨hsplit h, fun key' rest' h' heq ↦ ?_⟩
    rw [← hsplit h, heq, hsplit h']

/-- A unit is looked for below a port, and the port itself is found. -/
theorem lookup_join_port :
    Value.find [("server", .object [("port", .int 80)])]
        (Path.ofText (Path.join "server" "port.unit")) =
      .error ⟨"server.port.unit", "server.port", .int⟩ ∧
    Config.get ⟨.object [("server", .object [("port", .int 80)])]⟩ (Path.join "server" "port") =
      .ok (some (.int 80)) ∧
    Path.ofText (["port"].foldl Path.join "server") = ["server", "port"] := by
  have hunit : ∀ key ∈ Path.ofText "port.unit", key ≠ "" := by decide
  have hport : ∀ key ∈ Path.ofText "port", key ≠ "" := by decide
  have hwritten : Path.Written ["server", "port"] := ⟨by decide, by decide⟩
  refine ⟨?_, ?_, (lookup_join.2.2 "server" ["port"] hwritten).1⟩
  · exact (lookup_join.1 _ "server" "port.unit" hunit).trans rfl
  · exact (lookup_join.2.1 _ "server" "port" hport).trans rfl

end LayeredConfig
