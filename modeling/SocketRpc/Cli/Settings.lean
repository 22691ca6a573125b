import SocketRpc.Config
import SocketRpc.Path
namespace SocketRpc.Cli

structure LogSettings where
  level : String := "warn"
  components : List (String × String) := []
  json : Bool := false
deriving Repr, DecidableEq

namespace LogSettings

structure Draft where
  level : Option String := none
  components : Option (List (String × String)) := none
  json : Option Bool := none

def record : Json.Record Draft LogSettings where
  name := "LogConfig"
  start := {}
  fields := [
    .of "level" .text Draft.level (fun a d => { d with level := some a }) true,
    .of "components" .texts Draft.components (fun a d => { d with components := some a }) true,
    .of "json" .bool Draft.json (fun a d => { d with json := some a }) true]
  build d :=
    let s : LogSettings := {}
    .ok {
      level := d.level.getD s.level
      components := d.components.getD s.components
      json := d.json.getD s.json }

end LogSettings

structure Settings where
  provider : Config := {}
  log : LogSettings := {}
deriving Repr, DecidableEq

namespace Settings

structure Draft where
  provider : Option Config := none
  log : Option LogSettings := none

def record : Json.Record Draft Settings where
  name := "CliConfig"
  start := {}
  fields := [
    .of "provider" Config.record.decoder Draft.provider (fun a d => { d with provider := some a }) true,
    .of "log" LogSettings.record.decoder Draft.log (fun a d => { d with log := some a }) true]
  build d := .ok { provider := d.provider.getD {}, log := d.log.getD {} }

end Settings

end SocketRpc.Cli
