import AccessPolicy.Json
import AccessPolicy.Settings

/-!
Settings as JSON, with what becomes of the transports that they ask for.
-/
namespace AccessPolicy.Settings

def toJson (settings : Settings) : Json :=
  let transport : Json := match settings.transport with
    | .ok _ => .str "ok"
    | .error fault => .str fault.message
  .obj [
    ("decision_ttl_secs", Json.ofNat settings.decisionTtl),
    ("role_ttl_secs", Json.ofNat settings.roleTtl),
    ("superadmin_role", .str settings.superadminRole),
    ("check_timeout_ms", Json.ofOption Json.ofNat settings.checkTimeout),
    ("batch_concurrency", Json.ofNat settings.batchConcurrency),
    ("sync_channel", .str settings.syncChannel),
    ("redis_url", Json.ofOption .str settings.redisUrl),
    ("change_bus", transport),
    ("cache_store", transport)]

end AccessPolicy.Settings
