import SocketRpc.Failure
import SocketRpc.Path
namespace SocketRpc

structure Endpoint where
  kind : String
  address : String
deriving Repr, DecidableEq

namespace Endpoint

def display (e : Endpoint) : String := "<" ++ e.kind ++ " " ++ e.address ++ ">"

def ipc (w : Path.Place) (p : Path) : Endpoint where
  kind := "IpcProvider"
  address := (p.resolve w).text

def defaultIpc (w : Path.Place) : Except Failure Endpoint :=
  match Path.defaultSocket? w with
  | some p => .ok (ipc w p)
  | none => .error (.other "cannot determine default IPC path: home directory unknown")

def webSocket (url : String) : Endpoint where
  kind := "WsProvider"
  address := url

def webSocketObjection (url : String) : Option Failure :=
  if "ws://".toList.isPrefixOf url.toList || "wss://".toList.isPrefixOf url.toList then none
  else some (.webSocket "URL error: URL scheme not supported")

end Endpoint

end SocketRpc
