import LibMemcached.Proof.Analyze
import LibMemcached.Proof.Buckets
import LibMemcached.Proof.Config
import LibMemcached.Proof.Crc32
import LibMemcached.Proof.Deadline
import LibMemcached.Proof.GrowableString
import LibMemcached.Proof.Hosts
import LibMemcached.Proof.Jenkins
import LibMemcached.Proof.KeyFailure
import LibMemcached.Proof.LegalKeys
import LibMemcached.Proof.LineAssertions
import LibMemcached.Proof.Md5
import LibMemcached.Proof.MgetSuccess
import LibMemcached.Proof.Octets
import LibMemcached.Proof.Packets
import LibMemcached.Proof.Parse
import LibMemcached.Proof.PoolClients
import LibMemcached.Proof.PoolWaits
import LibMemcached.Proof.Prefixed
import LibMemcached.Proof.Regions
import LibMemcached.Proof.Stats
import LibMemcached.Proof.StorageCalls
import LibMemcached.Proof.TextInput
import LibMemcached.Proof.Triggers
