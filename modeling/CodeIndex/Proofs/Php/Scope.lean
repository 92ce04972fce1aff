import CodeIndex.Php.Extract

/-!
# The namespace in effect

A tree is read from its start: namespace blocks open and close, namespace statements switch,
and classes, interfaces and traits are declared.  The namespace of a declaration can be read
off the events in front of it.  A block is in effect until it closes.  A statement is in effect
until the next statement of the same block, or until that block closes.  Of the definitions that
are still in effect the last one counts.

The walk over a tree carries one name instead, which it replaces at a statement and puts back
behind a block.  Both give the same namespaces.

* `inEffect_statement`, `inEffect_block` : what a statement and a block do to the events so far.
* `walkNodes_listing` : the walk finds the listed declarations and leaves the namespace in effect.
* `extract_listing` : so does the extraction of a whole tree.
* `extract_ne_listing` : namespace definitions inside a class do not count.
-/

namespace CodeIndex.Php

/-- What a reader of a tree passes. -/
inductive ScopeEvent where
  /-- A namespace block opens. -/
  | opens (name : String)
  /-- The innermost namespace block closes. -/
  | closes
  /-- A namespace statement. -/
  | switches (name : String)
  /-- A class, interface or trait. -/
  | declares (head : ClassHead)
  deriving DecidableEq, Repr

/-- An event, and whether it stands inside a class, interface or trait. -/
structure Mark where
  inside : Bool
  event : ScopeEvent
  deriving DecidableEq, Repr

mutual

/-- The marks of a node, in document order. -/
def Node.marks (inside : Bool) : Node → List Mark
  | .comment _ => []
  | .spaceStatement name => [⟨inside, .switches name⟩]
  | .spaceBlock name body =>
    ⟨inside, .opens name⟩ :: (nodeMarks inside body ++ [⟨inside, .closes⟩])
  | .classLike head members => ⟨inside, .declares head⟩ :: memberMarks members
  | .other children => nodeMarks inside children

/-- The marks of siblings. -/
def nodeMarks (inside : Bool) : List Node → List Mark
  | [] => []
  | node :: rest => node.marks inside ++ nodeMarks inside rest

/-- The marks inside a member of a class, interface or trait. -/
def Member.marks : Member → List Mark
  | .method _ body => nodeMarks true body
  | .other children => nodeMarks true children
  | .comment _ => []
  | .property _ => []
  | .constants _ => []
  | .traitUse _ => []

/-- The marks inside the members of a class, interface or trait. -/
def memberMarks : List Member → List Mark
  | [] => []
  | member :: rest => member.marks ++ memberMarks rest

end

/-- Does the scope of a definition end among the events that follow it?  `depth` counts the
blocks that opened since.  The scope of a block ends where the block closes; that of a statement
ends there as well, and at the next statement of the same block. -/
def endsScope (isBlock : Bool) (depth : Nat) : List ScopeEvent → Bool
  | [] => false
  | .opens _ :: rest => endsScope isBlock (depth + 1) rest
  | .closes :: rest => if depth = 0 then true else endsScope isBlock (depth - 1) rest
  | .switches _ :: rest =>
    if depth = 0 && !isBlock then true else endsScope isBlock depth rest
  | .declares _ :: rest => endsScope isBlock depth rest

/-- The names of the definitions whose scope is still open at the end, in document order. -/
def openNames : List ScopeEvent → List String
  | [] => []
  | .opens name :: rest =>
    if endsScope true 0 rest then openNames rest else name :: openNames rest
  | .switches name :: rest =>
    if endsScope false 0 rest then openNames rest else name :: openNames rest
  | .closes :: rest => openNames rest
  | .declares _ :: rest => openNames rest

/-- The namespace in effect after some events: the last one that is still open, without outer
backslashes, or the global one. -/
def inEffect (events : List ScopeEvent) : String :=
  ((openNames events).getLast?.map spaceName).getD ""

/-- The declarations among the marks that stand outside other declarations, each with the
namespace in effect at it.  Only the events of marks that `counts` lets through decide about
namespaces; `before` are those in front. -/
def listing (counts : Mark → Bool) (before : List ScopeEvent) :
    List Mark → List (ClassHead × String)
  | [] => []
  | mark :: rest =>
    let found := match mark with
      | ⟨false, .declares head⟩ => [(head, inEffect before)]
      | _ => []
    found ++ listing counts (if counts mark then before ++ [mark.event] else before) rest

/-- Does a mark stand outside classes, interfaces and traits? -/
def Mark.isOuter (mark : Mark) : Bool := !mark.inside

/-- The events of the outer marks. -/
def outerEvents (marks : List Mark) : List ScopeEvent := (marks.filter Mark.isOuter).map Mark.event

/-! ## Marks inside declarations -/

mutual

/-- Below an inner node every mark is inside. -/
theorem Node.inside_of_mem_marks : ∀ (node : Node), ∀ mark ∈ node.marks true, mark.inside = true
  | .comment _ => by simp [Node.marks]
  | .spaceStatement _ => by simp [Node.marks]
  | .spaceBlock _ body => by
    have hbody := inside_of_mem_nodeMarks body
    simpa [Node.marks, or_imp, forall_and] using hbody
  | .classLike _ members => by
    have hmembers := inside_of_mem_memberMarks members
    simpa [Node.marks] using hmembers
  | .other children => by
    have hchildren := inside_of_mem_nodeMarks children
    simpa [Node.marks] using hchildren

/-- So it is for inner siblings. -/
theorem inside_of_mem_nodeMarks : ∀ (nodes : List Node), ∀ mark ∈ nodeMarks true nodes,
    mark.inside = true
  | [] => by simp [nodeMarks]
  | node :: rest => by
    intro mark hmark
    rcases List.mem_append.mp hmark with hhere | hrest
    · exact Node.inside_of_mem_marks node mark hhere
    · exact inside_of_mem_nodeMarks rest mark hrest

/-- Every mark of a member is inside. -/
theorem Member.inside_of_mem_marks : ∀ (member : Member), ∀ mark ∈ member.marks,
    mark.inside = true
  | .method _ body => by
    have hbody := inside_of_mem_nodeMarks body
    simpa [Member.marks] using hbody
  | .other children => by
    have hchildren := inside_of_mem_nodeMarks children
    simpa [Member.marks] using hchildren
  | .comment _ => by simp [Member.marks]
  | .property _ => by simp [Member.marks]
  | .constants _ => by simp [Member.marks]
  | .traitUse _ => by simp [Member.marks]

/-- So it is for all members. -/
theorem inside_of_mem_memberMarks : ∀ (members : List Member), ∀ mark ∈ memberMarks members,
    mark.inside = true
  | [] => by simp [memberMarks]
  | member :: rest => by
    intro mark hmark
    rcases List.mem_append.mp hmark with hhere | hrest
    · exact Member.inside_of_mem_marks member mark hhere
    · exact inside_of_mem_memberMarks rest mark hrest

end

/-! ## Outer events -/

/-- Without marks there are no events. -/
@[simp] theorem outerEvents_nil : outerEvents [] = [] := rfl

/-- Events are collected in the order of the marks. -/
@[simp] theorem outerEvents_append (a b : List Mark) :
    outerEvents (a ++ b) = outerEvents a ++ outerEvents b := by
  simp [outerEvents]

/-- A mark outside class-like nodes counts. -/
@[simp] theorem outerEvents_outer (event : ScopeEvent) (rest : List Mark) :
    outerEvents (⟨false, event⟩ :: rest) = event :: outerEvents rest := rfl

/-- Nothing inside a declaration is an outer event. -/
@[simp] theorem outerEvents_memberMarks (members : List Member) :
    outerEvents (memberMarks members) = [] := by
  unfold outerEvents
  rw [List.filter_eq_nil_iff.mpr, List.map_nil]
  intro mark hmark
  simp [Mark.isOuter, inside_of_mem_memberMarks members mark hmark]

/-- The listing of marks one after the other. -/
theorem listing_append (before : List ScopeEvent) (a b : List Mark) :
    listing Mark.isOuter before (a ++ b)
      = listing Mark.isOuter before a ++ listing Mark.isOuter (before ++ outerEvents a) b := by
  induction a generalizing before with
  | nil => simp [listing]
  | cons mark a ih =>
    obtain ⟨inside, event⟩ := mark
    cases inside with
    | true => simp [listing, ih, Mark.isOuter, outerEvents]
    | false => simp [listing, ih, Mark.isOuter]

/-- Nothing inside a declaration is listed. -/
theorem listing_of_inside {marks : List Mark} (h : ∀ mark ∈ marks, mark.inside = true)
    (before : List ScopeEvent) : listing Mark.isOuter before marks = [] := by
  induction marks with
  | nil => rfl
  | cons mark marks ih =>
    obtain ⟨inside, event⟩ := mark
    have hinside : inside = true := h _ List.mem_cons_self
    have hrest := ih fun m hm => h m (List.mem_cons_of_mem _ hm)
    simp [listing, Mark.isOuter, hinside, hrest]

/-! ## What closes a scope -/

mutual

/-- A node ends no scope that is open around a block which it stands in. -/
theorem endsScope_node (isBlock : Bool) (depth : Nat) (rest : List ScopeEvent) : ∀ node : Node,
    endsScope isBlock (depth + 1) (outerEvents (node.marks false) ++ rest)
      = endsScope isBlock (depth + 1) rest
  | .comment _ => by simp [Node.marks]
  | .spaceStatement _ => by simp [Node.marks, endsScope]
  | .spaceBlock _ body => by
    have hbody := endsScope_nodes isBlock (depth + 1) (.closes :: rest) body
    simpa [Node.marks, endsScope] using hbody
  | .classLike _ members => by simp [Node.marks, endsScope]
  | .other children => by
    have hchildren := endsScope_nodes isBlock depth rest children
    simpa [Node.marks] using hchildren

/-- So it is for siblings. -/
theorem endsScope_nodes (isBlock : Bool) (depth : Nat) (rest : List ScopeEvent) :
    ∀ nodes : List Node,
      endsScope isBlock (depth + 1) (outerEvents (nodeMarks false nodes) ++ rest)
        = endsScope isBlock (depth + 1) rest
  | [] => by simp [nodeMarks]
  | node :: nodes => by
    have hhere := endsScope_node isBlock depth (outerEvents (nodeMarks false nodes) ++ rest) node
    have hrest := endsScope_nodes isBlock depth rest nodes
    simpa [nodeMarks, hrest] using hhere

end

mutual

/-- What stands in a block does not outlive it: a scope that is still open behind a node ends
where the block closes. -/
theorem endsScope_node_closes {isBlock : Bool} {rest : List ScopeEvent}
    (hrest : endsScope isBlock 0 rest = true) : ∀ node : Node,
    endsScope isBlock 0 (outerEvents (node.marks false) ++ rest) = true
  | .comment _ => by simpa [Node.marks] using hrest
  | .spaceStatement _ => by simp [Node.marks, endsScope, hrest]
  | .spaceBlock _ body => by
    have hbody := endsScope_nodes isBlock 0 (.closes :: rest) body
    simpa [Node.marks, endsScope, hrest] using hbody
  | .classLike _ members => by simpa [Node.marks, endsScope] using hrest
  | .other children => by
    have hchildren := endsScope_nodes_closes hrest children
    simpa [Node.marks] using hchildren

/-- So it is for siblings. -/
theorem endsScope_nodes_closes {isBlock : Bool} {rest : List ScopeEvent}
    (hrest : endsScope isBlock 0 rest = true) : ∀ nodes : List Node,
    endsScope isBlock 0 (outerEvents (nodeMarks false nodes) ++ rest) = true
  | [] => by simpa [nodeMarks] using hrest
  | node :: nodes => by
    have hnodes := endsScope_nodes_closes hrest nodes
    have hhere := endsScope_node_closes hnodes node
    simpa [nodeMarks] using hhere

end

mutual

/-- No definition in a node is open behind the end of the block around it. -/
theorem openNames_node (rest : List ScopeEvent) (hblock : endsScope true 0 rest = true)
    (hstatement : endsScope false 0 rest = true) : ∀ node : Node,
    openNames (outerEvents (node.marks false) ++ rest) = openNames rest
  | .comment _ => by simp [Node.marks]
  | .spaceStatement _ => by simp [Node.marks, openNames, hstatement]
  | .spaceBlock _ body => by
    have hends : ∀ isBlock, endsScope isBlock 0 (.closes :: rest) = true := by simp [endsScope]
    have hself := endsScope_nodes_closes (hends true) body
    have hbody := openNames_nodes (.closes :: rest) (hends true) (hends false) body
    simp only [Node.marks, outerEvents_outer, outerEvents_append, outerEvents_nil,
      List.cons_append, List.append_assoc, List.nil_append, openNames]
    rw [if_pos hself, hbody]
    rfl
  | .classLike _ members => by simp [Node.marks, openNames]
  | .other children => by
    have hchildren := openNames_nodes rest hblock hstatement children
    simpa [Node.marks] using hchildren

/-- So it is for siblings. -/
theorem openNames_nodes (rest : List ScopeEvent) (hblock : endsScope true 0 rest = true)
    (hstatement : endsScope false 0 rest = true) : ∀ nodes : List Node,
    openNames (outerEvents (nodeMarks false nodes) ++ rest) = openNames rest
  | [] => by simp [nodeMarks]
  | node :: nodes => by
    have hnodes := openNames_nodes rest hblock hstatement nodes
    have hhere := openNames_node (outerEvents (nodeMarks false nodes) ++ rest)
      (endsScope_nodes_closes hblock nodes) (endsScope_nodes_closes hstatement nodes) node
    simpa [nodeMarks, hnodes] using hhere

end

/-! ## Steps of the namespace in effect -/

/-- Before the first event the global namespace is in effect. -/
@[simp] theorem inEffect_nil : inEffect [] = "" := rfl

/-- A definition that was just made is the last one that is open. -/
theorem getLast?_openNames_concat {event : ScopeEvent} {name : String}
    (hevent : openNames [event] = [name]) (before : List ScopeEvent) :
    (openNames (before ++ [event])).getLast? = some name := by
  induction before with
  | nil => simp [hevent]
  | cons first before ih =>
    have hcons : ∀ other, (other :: openNames (before ++ [event])).getLast? = some name := by
      intro other
      simp [List.getLast?_cons, ih]
    cases first with
    | opens other =>
      simp only [List.cons_append, openNames]
      split
      · exact ih
      · exact hcons other
    | switches other =>
      simp only [List.cons_append, openNames]
      split
      · exact ih
      · exact hcons other
    | closes => exact ih
    | declares head => exact ih

/-- A statement puts its own namespace into effect. -/
theorem inEffect_statement (before : List ScopeEvent) (name : String) :
    inEffect (before ++ [.switches name]) = spaceName name := by
  rw [inEffect, getLast?_openNames_concat rfl before]
  rfl

/-- The start of a block puts its namespace into effect. -/
theorem inEffect_opens (before : List ScopeEvent) (name : String) :
    inEffect (before ++ [.opens name]) = spaceName name := by
  rw [inEffect, getLast?_openNames_concat rfl before]
  rfl

/-- Events that end no open scope, and define nothing that stays open, leave the open
definitions as they were. -/
theorem openNames_append_of_neutral {events : List ScopeEvent}
    (hends : ∀ isBlock depth, endsScope isBlock depth events = false)
    (hopen : openNames events = []) (before : List ScopeEvent) :
    openNames (before ++ events) = openNames before := by
  have happend : ∀ isBlock (u : List ScopeEvent) depth,
      endsScope isBlock depth (u ++ events) = endsScope isBlock depth u := by
    intro isBlock u
    induction u with
    | nil =>
      intro depth
      rw [List.nil_append, hends]
      rfl
    | cons event u ih =>
      intro depth
      cases event <;> simp [endsScope, ih]
  induction before with
  | nil => exact hopen
  | cons event before ih => cases event <;> simp [openNames, happend, ih]

/-- A declaration leaves the namespace in effect. -/
theorem inEffect_declares (before : List ScopeEvent) (head : ClassHead) :
    inEffect (before ++ [.declares head]) = inEffect before := by
  have hends : ∀ isBlock depth, endsScope isBlock depth [.declares head] = false := fun _ _ => rfl
  rw [inEffect, openNames_append_of_neutral hends rfl]
  rfl

/-- **A block restores.**  Behind a block the namespace is in effect that was so in front of
it, whatever stands in the block. -/
theorem inEffect_block (before : List ScopeEvent) (name : String) (body : List Node) :
    inEffect (before ++ outerEvents ((Node.spaceBlock name body).marks false))
      = inEffect before := by
  have hends : ∀ isBlock depth,
      endsScope isBlock depth (outerEvents ((Node.spaceBlock name body).marks false)) = false := by
    intro isBlock depth
    have hbody := endsScope_nodes isBlock depth [.closes] body
    simpa [Node.marks, endsScope] using hbody
  have hopen : openNames (outerEvents ((Node.spaceBlock name body).marks false)) = [] := by
    have hclosed : ∀ isBlock, endsScope isBlock 0 [.closes] = true := fun _ => rfl
    have hself := endsScope_nodes_closes (hclosed true) body
    have hbody := openNames_nodes [.closes] (hclosed true) (hclosed false) body
    simpa [Node.marks, openNames, hself] using hbody
  rw [inEffect, openNames_append_of_neutral hends hopen]
  rfl

/-! ## The walk -/

/-- The kind, the name, the namespace and the qualified name of a declaration. -/
def scopeOf (d : Declaration) : DeclarationKind × String × String × String :=
  (d.kind, d.name, d.space, d.qualifiedName)

/-- The same of a head in a namespace. -/
def scopeIn (found : ClassHead × String) : DeclarationKind × String × String × String :=
  (found.1.kind, found.1.name, found.2, qualify found.2 found.1.name)

mutual

/-- The walk over a node, started with the namespace in effect, leaves the one in effect behind
it and finds the declarations that are listed. -/
theorem walkNode_listing (path : String) (seen : List (Option String)) (before : List ScopeEvent) :
    ∀ node : Node,
      (walkNode path seen (inEffect before) node).1
        = inEffect (before ++ outerEvents (node.marks false)) ∧
      (walkNode path seen (inEffect before) node).2.map scopeOf
        = (listing Mark.isOuter before (node.marks false)).map scopeIn
  | .comment _ => by simp [walkNode, Node.marks, listing]
  | .spaceStatement name => by
    simp [walkNode, Node.marks, listing, inEffect_statement]
  | .spaceBlock name body => by
    -- The block restores the namespace; inside it its own name is in effect.
    have hrestore := inEffect_block before name body
    have hbody := (walkNodes_listing path [] (before ++ [.opens name]) body).2
    rw [inEffect_opens] at hbody
    refine ⟨hrestore.symm, ?_⟩
    simp only [walkNode, Node.marks, listing, Mark.isOuter, Bool.not_false, if_true,
      listing_append, List.nil_append, List.append_nil]
    exact hbody
  | .classLike head members => by
    have hnone := listing_of_inside (inside_of_mem_memberMarks members)
      (before ++ [.declares head])
    simp [walkNode, Node.marks, listing, Mark.isOuter, hnone, inEffect_declares, scopeOf,
      scopeIn, declare]
  | .other children => by
    have hchildren := walkNodes_listing path [] before children
    simpa [walkNode, Node.marks] using hchildren

/-- So it is for the walk over siblings. -/
theorem walkNodes_listing (path : String) (seen : List (Option String)) (before : List ScopeEvent) :
    ∀ nodes : List Node,
      (walkNodes path seen (inEffect before) nodes).1
        = inEffect (before ++ outerEvents (nodeMarks false nodes)) ∧
      (walkNodes path seen (inEffect before) nodes).2.map scopeOf
        = (listing Mark.isOuter before (nodeMarks false nodes)).map scopeIn
  | [] => by simp [walkNodes, nodeMarks, listing]
  | node :: nodes => by
    obtain ⟨hspace, hfound⟩ := walkNode_listing path seen before node
    obtain ⟨hlast, hmore⟩ := walkNodes_listing path (node.commentText? :: seen)
      (before ++ outerEvents (node.marks false)) nodes
    rw [← hspace] at hlast hmore
    simp only [walkNodes, nodeMarks, outerEvents_append, listing_append, List.map_append]
    refine ⟨?_, ?_⟩
    · rw [hlast, List.append_assoc]
    · rw [hfound, hmore]

end

/-- **Namespaces are scoped.**  The declarations of a tree are, in document order, its classes,
interfaces and traits that stand outside each other.  Each has the namespace in effect at it by
the definitions that stand outside classes, interfaces and traits: the last one in front of it
whose scope is still open, or the global one.  Its qualified name is made of that namespace and
its name. -/
theorem extract_listing (path : String) (tree : List Node) :
    (extract path tree).map scopeOf
      = (listing Mark.isOuter [] (nodeMarks false tree)).map scopeIn :=
  (walkNodes_listing path [] [] tree).2

/-- **Definitions inside a class do not count.**  A namespace statement in a method of a class
has no block around it that would end its scope, so it would count for the class behind.  The
walk does not enter the first class, and the second one is in the global namespace. -/
theorem extract_ne_listing :
    ∃ (path : String) (tree : List Node), (extract path tree).map scopeOf
      ≠ (listing (fun _ => true) [] (nodeMarks false tree)).map scopeIn :=
  ⟨"", [.classLike { name := "A" } [.method { name := "f" } [.spaceStatement "X"]],
    .classLike { name := "B" } []], by decide⟩

end CodeIndex.Php
