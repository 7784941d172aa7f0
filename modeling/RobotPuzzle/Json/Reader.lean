import RobotPuzzle.Json.Token

/-!
Reading a JSON text: a machine over its tokens with the open arrays and objects on a stack. The
whole text is one value. An array or object inside too many others is unfit.
-/

namespace RobotPuzzle.Json

/-- An array or object that is open: what it holds so far, last one first. -/
inductive Frame
  | items (before : List Json)
  | members (before : List (Option String × Json)) (name : Option String)

inductive Reading
  | awaitValue (stack : List Frame)
  | awaitFirstItem (stack : List Frame)
  | awaitFirstName (stack : List Frame)
  | awaitName (stack : List Frame) (before : List (Option String × Json))
  | awaitColon (stack : List Frame) (before : List (Option String × Json)) (name : Option String)
  /-- A value is complete; a comma, a closing mark or the end comes next. -/
  | complete (stack : List Frame) (value : Json)

/-- An array or object inside the open ones, if one more may stand there. -/
def nested (limit : Option Nat) (stack : List Frame) (value : Json) : Json :=
  match limit with
  | none => value
  | some limit => if stack.length < limit then value else .unfit

/-- The object with these members, last one first. An unfit name makes it unfit. -/
def objectOf (before : List (Option String × Json)) : Json :=
  match before.reverse.mapM fun (name, value) => name.map fun name => (name, value) with
  | none => .unfit
  | some members => .obj members

def beginValue? (stack : List Frame) : Token → Option Reading
  | .text none => some (.complete stack .unfit)
  | .text (some value) => some (.complete stack (.str value))
  | .scalar value => some (.complete stack value)
  | .openBracket => some (.awaitFirstItem stack)
  | .openBrace => some (.awaitFirstName stack)
  | _ => none

def Reading.step? (limit : Option Nat) (state : Reading) (token : Token) : Option Reading :=
  match state with
  | .awaitValue stack => beginValue? stack token
  | .awaitFirstItem stack =>
    match token with
    | .closeBracket => some (.complete stack (nested limit stack (.arr [])))
    | _ => beginValue? (.items [] :: stack) token
  | .awaitFirstName stack =>
    match token with
    | .closeBrace => some (.complete stack (nested limit stack (.obj [])))
    | .text name => some (.awaitColon stack [] name)
    | _ => none
  | .awaitName stack before =>
    match token with
    | .text name => some (.awaitColon stack before name)
    | _ => none
  | .awaitColon stack before name =>
    match token with
    | .colon => some (.awaitValue (.members before name :: stack))
    | _ => none
  | .complete [] _ => none
  | .complete (.items before :: stack) value =>
    match token with
    | .comma => some (.awaitValue (.items (value :: before) :: stack))
    | .closeBracket =>
      some (.complete stack (nested limit stack (.arr (value :: before).reverse)))
    | _ => none
  | .complete (.members before name :: stack) value =>
    match token with
    | .comma => some (.awaitName stack ((name, value) :: before))
    | .closeBrace =>
      some (.complete stack (nested limit stack (objectOf ((name, value) :: before))))
    | _ => none

def readTokens (limit : Option Nat) (state : Reading) : List Token → Option Json
  | [] =>
    match state with
    | .complete [] value => some value
    | _ => none
  | token :: rest =>
    match state.step? limit token with
    | none => none
    | some next => readTokens limit next rest

/-- The value of a text. Parts nested inside `limit` others are unfit. -/
def read? (limit : Option Nat) (text : String) : Option Json :=
  (tokens? text.toList).bind (readTokens limit (.awaitValue []))

def fileNesting : Nat := 127

end RobotPuzzle.Json
