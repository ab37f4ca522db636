import FreeswitchEsl.Originate.Endpoint

/-!
# The originate command

The command builder, its text and the parser of that text.
-/

namespace FreeswitchEsl

open Text

/-! ## Applications -/

inductive DialplanType where
  | inline
  | xml
  deriving DecidableEq

def DialplanType.display : DialplanType → Str
  | .inline => "inline".toList
  | .xml => "XML".toList

def DialplanType.fromStr (s : Str) : OriginateResult DialplanType :=
  if s = "inline".toList then .ok .inline
  else if s = "XML".toList then .ok .xml
  else .error (.parseError ("unknown dialplan type: ".toList ++ s))

structure Application where
  name : Str
  args : Option Str
  deriving DecidableEq

/-- Format as inline (`name:args`) or XML (`&name(args)`) syntax. -/
def Application.toStringWithDialplan (app : Application) : DialplanType → Str
  | .inline => app.name ++ ':' :: app.args.getD []
  | .xml => '&' :: app.name ++ '(' :: app.args.getD [] ++ [')']

/-- Format the list for the given dialplan type. XML allows exactly one app. -/
def applicationsToString (apps : List Application) : DialplanType → OriginateResult Str
  | .inline => .ok ([','].intercalate (apps.map (·.toStringWithDialplan .inline)))
  | .xml =>
      match apps with
      | [app] => .ok (app.toStringWithDialplan .xml)
      | _ => .error .tooManyApplications

def parseInlineApplication (part : Str) : OriginateResult Application :=
  match splitOnce ':' part with
  | some (name, args) => .ok ⟨name, some args⟩
  | none => .error (.parseError ("invalid inline application: ".toList ++ part))

def parseApplicationList (s : Str) (dialplan : Option DialplanType) :
    OriginateResult (List Application) :=
  if dialplan = some .inline then do
    let parts ← originateSplit s ','
    parts.mapM parseInlineApplication
  else match stripPrefix ['&'] s with
    | some rest =>
        match stripSuffix [')'] rest with
        | none => .error (.parseError "missing closing paren".toList)
        | some rest =>
            match splitOnce '(' rest with
            | none => .error (.parseError "missing opening paren".toList)
            | some (name, args) => .ok [⟨name, if args = [] then none else some args⟩]
    | none => .ok [⟨s, none⟩]

/-! ## The command -/

structure Originate where
  endpoint : Endpoint
  applications : List Application
  dialplan : Option DialplanType
  context : Option Str
  cidName : Option Str
  cidNum : Option Str
  timeout : Option UInt32
  deriving DecidableEq

namespace Originate

/-- The optional fields as they are written behind the application. -/
def fields (o : Originate) : List Str :=
  (o.dialplan.map DialplanType.display).toList ++ o.context.toList ++ o.cidName.toList ++
    o.cidNum.toList ++ (o.timeout.map fun t ↦ displayNat t.toNat).toList

/-- The `Display` text; formatting fails when the applications do not fit the
dialplan. -/
def display (o : Originate) : Option Str :=
  match applicationsToString o.applications (o.dialplan.getD .xml) with
  | .error _ => none
  | .ok apps =>
      some ("originate ".toList ++ o.endpoint.display ++ ' ' :: originateQuote apps ++
        o.fields.flatMap fun field ↦ ' ' :: field)

/-- `args.remove(0)` on a list that may be empty. -/
def nextArg (args : List Str) : Option Str × List Str := (args.head?, args.tail)

/-- The dialplan that the first token names, if it names one. -/
def dialplanOf (args : List Str) : Option DialplanType :=
  args.head?.bind fun arg ↦ (DialplanType.fromStr arg).toOption

def parseTimeout : Option Str → OriginateResult (Option UInt32)
  | none => .ok none
  | some arg =>
      match parseU32 arg with
      | some t => .ok (some (UInt32.ofNat t))
      | none => .error (.parseError ("invalid timeout: ".toList ++ parseError (2 ^ 32) arg))

/-- The part of `from_str` behind the endpoint and the application token. -/
def fromArgs (endpoint : Endpoint) (appStr : Str) (args : List Str) :
    OriginateResult Originate := do
  let dialplan := dialplanOf args
  let args := if dialplan.isSome then args.tail else args
  let applications ← parseApplicationList appStr dialplan
  let (context, args) := nextArg args
  let (cidName, args) := nextArg args
  let (cidNum, args) := nextArg args
  let timeout ← parseTimeout (nextArg args).1
  return ⟨endpoint, applications, dialplan, context, cidName, cidNum, timeout⟩

def fromStr (s : Str) : OriginateResult Originate := do
  let s := trim ((stripPrefix "originate".toList s).getD s)
  let args ← originateSplit s ' '
  match args with
  | [] => .error (.parseError "empty originate".toList)
  | endpointStr :: args =>
      let endpoint ← Endpoint.fromStr endpointStr
      match args with
      | [] => .error (.parseError "missing application in originate".toList)
      | appArg :: args => fromArgs endpoint (originateUnquote appArg) args

end Originate

end FreeswitchEsl
