import HttpContract.Route.Registration
import Mathlib.Data.List.DropRight

/-!
# Groups within groups

A path that was joined begins with one slash and ends with none, so joining once more changes
nothing inside of it: joining is associative. A route of a group within groups is therefore the
route with the joined path and with the tags of all groups, those of the outermost one in front.
-/

namespace HttpContract

/-- No slash at either end. -/
def IsTrimmed (cs : List Char) : Prop := cs.head? ≠ some '/' ∧ cs.getLast? ≠ some '/'

/-- Two texts with a slash between them, if there is something on either side of it. -/
def joinTrimmed (first second : List Char) : List Char :=
  if first = [] then second
  else if second = [] then first
  else first ++ '/' :: second

section Paths

variable {cs ds es : List Char}

/-- What is trimmed has nothing to be dropped at its ends. -/
theorem IsTrimmed.stripBoth_eq (h : IsTrimmed cs) : stripBoth (· == '/') cs = cs := by
  obtain ⟨hhead, hlast⟩ := h
  have hfront : cs.dropWhile (· == '/') = cs := by
    cases cs with
    | nil => rfl
    | cons c rest =>
      have hc : c ≠ '/' := by simpa using hhead
      simp [hc]
  have hbehind : cs.rdropWhile (· == '/') = cs := by
    rw [List.rdropWhile_eq_self_iff]
    intro hne heq
    rw [List.getLast?_eq_some_getLast hne] at hlast
    exact hlast (congrArg some (beq_iff_eq.mp heq))
  change (cs.dropWhile (· == '/')).rdropWhile (· == '/') = cs
  rw [hfront, hbehind]

/-- What remains between the slashes at the ends is trimmed. -/
theorem isTrimmed_trimSlashes (path : String) : IsTrimmed (trimSlashes path) := by
  have hrun : trimSlashes path = (path.toList.dropWhile (· == '/')).rdropWhile (· == '/') := rfl
  rw [hrun]
  constructor
  · intro hhead
    -- What is dropped at the end leaves the beginning as it is.
    obtain ⟨dropped, hdropped⟩ :=
      List.rdropWhile_prefix (· == '/') (path.toList.dropWhile (· == '/'))
    have hfirst : (path.toList.dropWhile (· == '/')).head? = some '/' := by
      rw [← hdropped, List.head?_append, hhead]
      rfl
    have hnot := List.head?_dropWhile_not (· == '/') path.toList
    rw [hfirst] at hnot
    simp at hnot
  · intro hlast
    have hne : (path.toList.dropWhile (· == '/')).rdropWhile (· == '/') ≠ [] := by
      rintro hnil
      simp [hnil] at hlast
    have hnot := List.rdropWhile_last_not (· == '/') _ hne
    rw [List.getLast?_eq_some_getLast hne, Option.some.injEq] at hlast
    exact hnot (beq_iff_eq.mpr hlast)

/-- Trimmed texts joined are trimmed. -/
theorem IsTrimmed.joinTrimmed (hcs : IsTrimmed cs) (hds : IsTrimmed ds) :
    IsTrimmed (joinTrimmed cs ds) := by
  unfold HttpContract.joinTrimmed
  by_cases hfirst : cs = []
  · rwa [if_pos hfirst]
  by_cases hsecond : ds = []
  · rwa [if_neg hfirst, if_pos hsecond]
  rw [if_neg hfirst, if_neg hsecond]
  constructor
  · rw [List.head?_append_of_ne_nil _ hfirst]
    exact hcs.1
  · have hlast : (cs ++ '/' :: ds).getLast? = ds.getLast? := by
      rw [List.getLast?_append_of_ne_nil _ (List.cons_ne_nil _ _), List.getLast?_cons,
        List.getLast?_eq_some_getLast hsecond]
      simp
    rw [hlast]
    exact hds.2

/-- Joining three texts, it makes no difference which two are joined first. -/
theorem joinTrimmed_assoc (cs ds es : List Char) :
    joinTrimmed (joinTrimmed cs ds) es = joinTrimmed cs (joinTrimmed ds es) := by
  by_cases hcs : cs = []
  · simp [joinTrimmed, hcs]
  by_cases hds : ds = []
  · simp [joinTrimmed, hcs, hds]
  by_cases hes : es = []
  · simp [joinTrimmed, hcs, hds, hes]
  simp [joinTrimmed, hcs, hds, hes]

/-- A joined path is the join of what stands between the slashes at the ends of its parts, with a
slash in front. -/
theorem toList_joinPaths (first second : String) : (joinPaths first second).toList =
    '/' :: joinTrimmed (trimSlashes first) (trimSlashes second) := by
  unfold joinPaths joinTrimmed
  by_cases hfirst : trimSlashes first = [] <;> by_cases hsecond : trimSlashes second = [] <;>
    simp [hfirst, hsecond, joinTexts]

/-- Between the slashes at its ends a joined path is the join of its parts. -/
theorem trimSlashes_joinPaths (first second : String) : trimSlashes (joinPaths first second) =
    joinTrimmed (trimSlashes first) (trimSlashes second) := by
  have htrimmed := (isTrimmed_trimSlashes first).joinTrimmed (isTrimmed_trimSlashes second)
  calc trimSlashes (joinPaths first second)
    _ = stripBoth (· == '/') ('/' :: joinTrimmed (trimSlashes first) (trimSlashes second)) := by
      rw [trimSlashes, toList_joinPaths]
    _ = stripBoth (· == '/') (joinTrimmed (trimSlashes first) (trimSlashes second)) := by
      simp [stripBoth]
    _ = joinTrimmed (trimSlashes first) (trimSlashes second) := htrimmed.stripBoth_eq

/-- Joining three paths, it makes no difference which two are joined first. -/
theorem joinPaths_assoc (a b c : String) :
    joinPaths (joinPaths a b) c = joinPaths a (joinPaths b c) := by
  rw [← String.toList_inj, toList_joinPaths, toList_joinPaths, trimSlashes_joinPaths,
    trimSlashes_joinPaths, joinTrimmed_assoc]

/-- One slash in front, and none at the end unless that one is all. -/
structure IsJoined (path : String) : Prop where
  front : path.toList.takeWhile (· == '/') = ['/']
  ending : path.toList.getLast? = some '/' → path = "/"

/-- A joined path is one, whatever was joined. -/
theorem isJoined_joinPaths (first second : String) : IsJoined (joinPaths first second) := by
  obtain ⟨hhead, hlast⟩ := (isTrimmed_trimSlashes first).joinTrimmed (isTrimmed_trimSlashes second)
  constructor
  · rw [toList_joinPaths]
    cases hjoined : joinTrimmed (trimSlashes first) (trimSlashes second) with
    | nil => rfl
    | cons c rest =>
      have hc : c ≠ '/' := by simpa [hjoined] using hhead
      simp [hc]
  · intro hend
    rw [toList_joinPaths] at hend
    have hempty : joinTrimmed (trimSlashes first) (trimSlashes second) = [] := by
      by_contra hne
      rw [List.getLast?_cons_of_ne_nil hne] at hend
      exact hlast hend
    rw [← String.toList_inj, toList_joinPaths, hempty]
    rfl

/-- A path below others, the outermost in front. -/
def joinBelow (above : List String) (path : String) : String := above.foldr joinPaths path

/-- Joining from the outside, path by path, is joining below all of them at once. -/
theorem joinPaths_foldl (start : String) (above : List String) (path : String) :
    joinPaths (above.foldl joinPaths start) path = joinPaths start (joinBelow above path) := by
  induction above generalizing start with
  | nil => rfl
  | cons first others ih =>
    calc joinPaths ((first :: others).foldl joinPaths start) path
      _ = joinPaths (joinPaths start first) (joinBelow others path) := ih (joinPaths start first)
      _ = joinPaths start (joinPaths first (joinBelow others path)) := joinPaths_assoc _ _ _

end Paths

namespace RouteGroup

/-- The group that a chain of groups, each within the one before, ends in: each has its path and its
tags. -/
def nested (g : RouteGroup) (chain : List (String × List TagSource)) : RouteGroup :=
  chain.foldl (fun outer step => outer.group step.1 step.2) g

/-- The path of a chain of groups is joined from the outside. -/
theorem path_nested (g : RouteGroup) (chain : List (String × List TagSource)) :
    (g.nested chain).path = (chain.map (·.1)).foldl joinPaths g.path := by
  induction chain generalizing g with
  | nil => rfl
  | cons step rest ih => exact ih (g.group step.1 step.2)

/-- A chain of groups has the tags of all of them in order. -/
theorem tags_nested (g : RouteGroup) (chain : List (String × List TagSource)) :
    (g.nested chain).tags = g.tags ++ chain.flatMap (·.2) := by
  induction chain generalizing g with
  | nil => simp [nested]
  | cons step rest ih =>
    calc (g.nested (step :: rest)).tags
      _ = (g.group step.1 step.2).tags ++ rest.flatMap (·.2) := ih (g.group step.1 step.2)
      _ = g.tags ++ (step :: rest).flatMap (·.2) := by simp [group]

end RouteGroup

/-- The choice of paths below others. The paths that the class of the parameters is marked with, if
there are any, are then given one by one. -/
def PathChoice.below (C : Classes) (params : Option Hint) (above : List String) :
    PathChoice → PathChoice
  | .one path => .one (joinBelow above path)
  | .several paths => .several (paths.map (joinBelow above))
  | .marked =>
    match (C.notesOf (Hint.asking params)).paths with
    | some (path :: paths) => .several ((path :: paths).map (joinBelow above))
    | _ => .marked

/-- A route as it is asked for without groups: below the paths of a chain, and with the tags of the
chain in front of its own. -/
def RouteDescription.flattened (C : Classes) (chain : List (String × List TagSource))
    (spec : RouteDescription) : RouteDescription :=
  { spec with
    path := spec.path.below C spec.params (chain.map (·.1))
    operation :=
      { spec.operation with tags := chain.flatMap (·.2) ++ spec.operation.tags } }

namespace Application

variable {C : Classes}

/-- A route without groups has the same paths, below those of the chain. -/
theorem pathsOf_flattened (chain : List (String × List TagSource)) (spec : RouteDescription) :
    pathsOf C (spec.flattened C chain) =
      (pathsOf C spec).map (List.map (joinBelow (chain.map (·.1)))) := by
  unfold pathsOf RouteDescription.flattened
  cases hpath : spec.path with
  | one path => rfl
  | several paths => rfl
  | marked =>
    cases hmarked : (C.notesOf (Hint.asking spec.params)).paths with
    | none => simp [PathChoice.below, hmarked, Except.map]
    | some paths => cases paths <;> simp [PathChoice.below, hmarked, Except.map]

/-- Continuing with a changed result is continuing with the result and changing it then. -/
theorem configured_map {α β : Type} (f : α → β) (result : Except ConfigurationError α) :
    configured (result.map f) = configured result >>= fun a => pure (f a) := by
  cases result <;> rfl

/-- Groups within groups are as good as none: paths are joined one after the other or all at once,
and the result has one slash in front and none at the end; and whatever the groups, the route and
the application, registering the route in the innermost group has the outcome and leaves the
application that registering it outside of them has and leaves, with the paths of all groups in
front of its own path and the tags of all groups in front of its own tags. -/
theorem register_nested :
    (∀ a b c, joinPaths (joinPaths a b) c = joinPaths a (joinPaths b c)) ∧
    (∀ a b, IsJoined (joinPaths a b)) ∧
    ∀ (C : Classes) (g : RouteGroup) (chain : List (String × List TagSource))
      (spec : RouteDescription) (app : Application),
      (register C (g.nested chain) spec).run app =
        (register C g (spec.flattened C chain)).run app := by
  refine ⟨joinPaths_assoc, isJoined_joinPaths, fun C g chain spec app => ?_⟩
  have htags : (g.nested chain).tags ++ spec.operation.tags =
      g.tags ++ (spec.flattened C chain).operation.tags := by
    rw [RouteGroup.tags_nested, List.append_assoc]
    rfl
  have htemplates (paths : List String) : paths.map (joinPaths (g.nested chain).path) =
      (paths.map (joinBelow (chain.map (·.1)))).map (joinPaths g.path) := by
    rw [List.map_map]
    apply List.map_congr_left
    intro path _
    rw [RouteGroup.path_nested, joinPaths_foldl, Function.comp_apply]
  unfold register
  rw [pathsOf_flattened, configured_map, bind_assoc, htags]
  simp only [pure_bind, htemplates]
  rfl

end Application

end HttpContract
