import StepTrace.Number.Literal

/-!
# Remote models

Three providers are known. A client fixes the provider, the model and the waiting time, and turns a
question into the request that its provider expects. The router takes what is not given from the
environment, and its connection needs a key from there. A reply is reduced to its text.
-/

namespace StepTrace

/-- The providers. -/
inductive Provider where
  | router
  | claude
  | openai
deriving DecidableEq, Repr

/-- The name of a provider. -/
def Provider.name : Provider → Text
  | .router => "openrouter".toList
  | .claude => "claude".toList
  | .openai => "openai".toList

/-- The variables of the environment. -/
abbrev Environment := List (Text × Text)

/-- The value of a variable, or another text if it is not set. -/
def Environment.getD (env : Environment) (name default : String) : Text :=
  (env.lookup name.toList).getD default.toList

/-- A text, or another one if it is empty. -/
def Text.orElse (t default : Text) : Text := if t.isEmpty then default else t

namespace Client

/-- Why there is no client. -/
inductive Error where
  | unknownProvider (name : Text)
  | missingKey (variableName : Text)
deriving DecidableEq, Repr

/-- The text of an error. -/
def Error.message : Error → Text
  | .unknownProvider name => "Unknown LLM provider: ".toList ++ name
  | .missingKey name =>
    "Environment variable ".toList ++ name ++
      " is not set. Set it to your OpenRouter API key.".toList

/-- The provider with a name. -/
def providerNamed (name : Text) : Except Error Provider :=
  match [Provider.router, .claude, .openai].find? (·.name = name) with
  | some p => .ok p
  | none => .error (.unknownProvider name)

/-- The usual waiting time in seconds. -/
def usualTimeout : Number := .float (Literal.nearest false 30 0)

/-- The usual number of tokens in a reply. -/
def usualTokens : Number := .int 1024

/-- What a client is made from. -/
structure Settings where
  /-- The model; none stands for the usual one. -/
  model : Option Text := none
  /-- The address of the router. -/
  address : Text := []
  /-- The variable with the key of the router. -/
  keyVariable : Text := "OPENROUTER_API_KEY".toList
  /-- How freely the router's model answers. -/
  temperature : Number := .float (Literal.nearest false 2 (-1))
  /-- The waiting time in seconds. -/
  timeout : Option Number := some usualTimeout
deriving Repr

/-- The same settings, where an empty model stands for the usual one. -/
def Settings.withUsualModel (s : Settings) : Settings :=
  { s with model := s.model.filter (! ·.isEmpty) }

/-- What the router wants to know. -/
structure Route where
  address : Text
  key : Text
  /-- The page that asks. -/
  page : Text
  /-- The name of the application that asks. -/
  title : Text
deriving DecidableEq, Repr

/-- What a connection is opened with. -/
structure Connection where
  timeout : Option Number
  route : Option Route
deriving Repr

/-- Prepare the connection to a provider. -/
def connect (env : Environment) (p : Provider) (s : Settings) : Except Error Connection :=
  match p with
  | .router =>
    let key := (env.lookup s.keyVariable).getD []
    if key.isEmpty then .error (.missingKey s.keyVariable)
    else
      let address :=
        s.address.orElse (env.getD "OPENROUTER_BASE_URL" "https://openrouter.ai/api/v1")
      let page := env.getD "OPENROUTER_HTTP_REFERER" "http://localhost:5173"
      let title := env.getD "OPENROUTER_APP_TITLE" "Miniko"
      .ok ⟨s.timeout, some ⟨address, key, page, title⟩⟩
  | _ => .ok ⟨s.timeout, none⟩

end Client

/-- A client of a provider. -/
structure Client where
  provider : Provider
  model : Text
  temperature : Number
  timeout : Option Number
deriving Repr

namespace Client

/-- The model that a provider is asked for. -/
def modelFor (env : Environment) (p : Provider) (model : Option Text) : Text :=
  match p with
  | .claude => model.getD "claude-sonnet-4-20250514".toList
  | .openai => model.getD "gpt-4o".toList
  | .router =>
    (model.getD []).orElse (env.getD "OPENROUTER_MODEL" "liquid/lfm-2.5-1.2b-thinking:free")

/-- The client with some settings. -/
def ofSettings (env : Environment) (p : Provider) (s : Settings) : Client :=
  ⟨p, modelFor env p s.model, s.temperature, s.timeout⟩

/-! ## Requests -/

/-- What a client is asked. -/
structure Query where
  system : Text
  user : Text
  tokens : Number := usualTokens
  timeout : Option Number := none
deriving Repr

/-- Who a message is from. -/
inductive Role where
  | system
  | user
deriving DecidableEq, Repr

/-- What is sent to a provider. -/
structure Request where
  model : Text
  tokens : Number
  /-- The system text, where it is not one of the messages. -/
  system : Option Text
  messages : List (Role × Text)
  temperature : Option Number
  timeout : Option Number
deriving Repr

/-- The waiting time of a query: its own unless that is missing or zero, and the client's
otherwise. -/
def waiting (c : Client) (q : Query) : Option Number :=
  match q.timeout with
  | some t => if t.isZero then c.timeout else some t
  | none => c.timeout

/-- The request for a query. -/
def request (c : Client) (q : Query) : Request :=
  let both := [(Role.system, q.system), (.user, q.user)]
  match c.provider with
  | .claude => ⟨c.model, q.tokens, some q.system, [(.user, q.user)], none, c.waiting q⟩
  | .openai => ⟨c.model, q.tokens, none, both, none, c.waiting q⟩
  | .router => ⟨c.model, q.tokens, none, both, some c.temperature, c.waiting q⟩

/-! ## Replies -/

/-- What a provider replies. -/
inductive Reply where
  /-- The blocks of one answer. -/
  | blocks (parts : List (Option Text))
  /-- Answers to choose from. -/
  | choices (answers : List (Option Text))
deriving DecidableEq, Repr

/-- The text of a reply: all blocks together, or the first choice. -/
def Reply.text : Reply → Text
  | .blocks parts => parts.flatMap (·.getD [])
  | .choices answers => answers.head?.join.getD []

end Client

end StepTrace
