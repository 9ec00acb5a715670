/-
  TaintAlias.Manager — the one live session.

  At most one session exists. Asking for another strategy discards the live session,
  cache and counters included, and starts a fresh one; reading counters never does.
-/

import TaintAlias.Session.Basic

namespace TaintAlias

structure Manager where
  program : Program
  config : Config
  session : Option Session

namespace Manager

/-- A manager without session, if the configuration is valid. -/
def create (program : Program) (config : Config) : Except AliasError (Manager × List Notice) :=
  match config.validate with
  | .error e => .error (.config e)
  | .ok () =>
    .ok (⟨program, config, none⟩, [.managerReady config.strategy config.caching config.disabled])

/-- The session for `strategy`, fresh unless it is the live one. -/
def sessionFor (m : Manager) (strategy : Sparsification) : Session × List Notice :=
  let fresh := Session.start strategy m.config
  match m.session with
  | none => (fresh, [.sessionCreated strategy])
  | some s =>
    if s.strategy = strategy then (s, [])
    else
      let discarded := s.counters.invocations
      (fresh,
        (if discarded > 0 then [.sessionReplaced s.strategy strategy discarded] else []) ++
        [.sessionCreated strategy])

/-- `s` becomes the live session. -/
def keep (m : Manager) (s : Session) : Manager := { m with session := some s }

/-- What a call returns, and what it leaves behind. -/
structure Reply where
  result : Except AliasError AliasSet
  manager : Manager
  asked : Option Ask
  notices : List Notice

/-- The aliases of `v` after `stmt`, answered by the session for `strategy`. -/
def getAliases (m : Manager) (oracle : Oracle) (strategy : Sparsification) (stmt : Stmt)
    (method : Method) (v : Variable) : Reply :=
  let (s, notices) := m.sessionFor strategy
  let r := s.getAliases m.program oracle stmt method v
  { result := r.result
    manager := m.keep r.session
    asked := r.asked
    notices := notices ++ r.notices }

def active? (m : Manager) : Option Sparsification := m.session.map (·.strategy)

def counters? (m : Manager) : Option Counters := m.session.map (·.counters)

/-- The counters of the live session, if it is the one of `strategy`. -/
def countersFor? (m : Manager) (strategy : Sparsification) : Option Counters :=
  (m.session.filter (·.strategy = strategy)).map (·.counters)

/-- Nanoseconds the live session has spent on queries. -/
def totalTime (m : Manager) : Nat := (m.counters?.map (·.time)).getD 0

/-- Drop the live session. -/
def reset (m : Manager) : Manager := { m with session := none }

end Manager

end TaintAlias
