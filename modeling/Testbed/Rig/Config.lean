import Testbed.Rig.Platform
import Testbed.Rig.Action

/-!
# The configuration of a rig

Servers, the sandboxes that services can run in, and the instances: self-contained scenarios with
their services, resources and actions.
-/

namespace Testbed.Rig

/-! ## §1 Servers -/

/-- A configuration file of a server. -/
def serverConfig : Fields := declare "ServerConfig" [
  ("file", "file,path", .text),
  texts "parameters"]

/-- A template file of a server. -/
def serverTemplate : Fields := declare "ServerTemplate" [
  ("file", "file,path", .text)]

/-- A server that services refer to by name. -/
def server : Fields := declare "Server" [
  name,
  ("extends", "extends", .text),
  ("port", "port,default=80", .int .u16),
  ("configs", "configs", .map (.record serverConfig)),
  ("templates", "templates", .map (.record serverTemplate)),
  texts "parameters"]

/-! ## §2 Services -/

/-- What a service does with a configuration file of its server. -/
def serviceConfig : Fields := declare "ServiceConfig" [
  texts "parameters",
  ("include", "include,default=true", .bool)]

/-- The server of a service. -/
def serviceServer : Fields := declare "ServiceServer" [
  name,
  ("port", "port", .int .u16),
  ("configs", "configs", .map (.record serviceConfig)),
  texts "parameters"]

/-- How a service is published. -/
def servicePublic : Fields := declare "ServicePublic" [
  ("port", "port,default=80", .int .u16)]

/-- The resources that a service uses. -/
def serviceResources : Fields := declare "ServiceResources" [
  ("certificates", "certificates", .list .text),
  ("scripts", "scripts", .list .text)]

/-- A service of an instance. -/
def serviceFields : Fields := declare "Service" [
  ("server", "server", .record serviceServer),
  ("sandbox", "sandbox,enum=local|docker|kubernetes,default=local", .text),
  ("requires", "requires", .list .text),
  ("public", "public", .record servicePublic),
  ("resources", "resources", .record serviceResources)]

/-! ## §3 Resources -/

/-- A certificate and its key. -/
def certificate : Fields := declare "Certificate" [
  ("certificate", "certificate", .text),
  ("private_key", "private_key", .text)]

/-- A script, given by its content or by a file. -/
def script : Fields := declare "Script" [
  ("content", "content", .text),
  ("path", "path,path", .text),
  ("mode", "mode,default=0644", .text),
  texts "parameters"]

/-- The resources of an instance. -/
def resources : Fields := declare "Resources" [
  ("certificates", "certificates", .map (.record certificate)),
  ("scripts", "scripts,string=content", .map (.record script))]

/-! ## §4 Instances and the whole -/

/-- An instance. Its time is in milliseconds. -/
def instanceFields : Fields := declare "Instance" [
  name,
  ("resources", "resources", .record resources),
  ("services", "services", .map (.record serviceFields)),
  ("environments", "environments,factory=environments", .map (.oneOf .environment)),
  members,
  ("timeout", "timeout,default=600000", .int .i32)]

/-- What is to be run. -/
def spec : Fields := declare "Spec" [
  ("workspace", "workspace", .text),
  ("instances", "instances,loadable", .list (.record instanceFields))]

/-- A whole configuration. -/
def config : Fields := declare "Config" [
  ("version", "version,enum=0.1,default=0.1", .text),
  name,
  ("description", "description", .text),
  ("sandboxes", "sandboxes,factory=sandboxes", .map (.oneOf .sandbox)),
  ("servers", "servers,loadable", .list (.record server)),
  ("spec", "spec", .record spec)]

end Testbed.Rig
