/-
The base of the generated client.

One file of every client is the same, apart from the address of the server: it holds what
the methods of the client are built on.
-/
import ApiClientGen.Code.Model

namespace ApiClientGen.Client.BaseFile

open ApiClientGen.Code

/-- The imports of the file. -/
def imports : List String := [
  "import json",
  "import logging",
  "from enum import Enum",
  "from typing import Any, Dict, List, Mapping, Optional, Tuple",
  "from urllib.parse import quote",
  "",
  "from aiohttp import ClientError, ClientSession, ClientTimeout",
  "from pydantic import BaseModel, TypeAdapter",
  "",
  "logger = logging.getLogger(__name__)"]

/-- The exception for responses that are failures. -/
def errorClass : List String := [
  "class SendRequestError(Exception):",
  "    def __init__(self, message, path, status_code, response_data=None):",
  "        self.message = message",
  "        self.path = path",
  "        self.status_code = status_code",
  "        self.response_data = response_data",
  "        super().__init__(f\"[\x7bstatus_code\x7d] \x7bpath\x7d: \x7bmessage\x7d\")"]

/-- The function that turns models into plain values. -/
def dumpFunction : List String := [
  "def dump(value: Any) -> Any:",
  "    \"\"\"Сериализация моделей и коллекций моделей в JSON-совместимые значения\"\"\"",
  "    if isinstance(value, BaseModel):",
  "        return value.model_dump(mode=\"json\", by_alias=True, exclude_none=True)",
  "    if isinstance(value, Enum):",
  "        return value.value",
  "    if isinstance(value, (list, tuple)):",
  "        return [dump(item) for item in value]",
  "    if isinstance(value, dict):",
  "        return \x7bkey: dump(item) for key, item in value.items()\x7d",
  "    return value"]

/-- The function that leaves out values that are missing. -/
def dropFunction : List String := [
  "def drop_none(values: Mapping[str, Any]) -> Dict[str, Any]:",
  "    return \x7bkey: value for key, value in values.items() if value is not None\x7d"]

/-- The head of the base class, with the address of the server as an expression. -/
def classHead (baseUrl : String) : List String := [
  "class BaseClient:",
  "    \"\"\"HTTP клиент на базе aiohttp\"\"\"",
  "",
  "    def __init__(",
  "        self,",
  "        base_url: str = " ++ baseUrl ++ ",",
  "        headers: Optional[Dict[str, str]] = None,",
  "        timeout: int = 30,",
  "    ):",
  "        self.base_url = base_url.rstrip(\"/\")",
  "        self.headers: Dict[str, str] = dict(headers or \x7b\x7d)",
  "        self._timeout = ClientTimeout(total=timeout)",
  "        self._session: Optional[ClientSession] = None",
  ""]

/-- The methods that open and close a session. -/
def sessionMethods : List String := [
  "    async def __aenter__(self):",
  "        return self",
  "",
  "    async def __aexit__(self, *exc_info):",
  "        await self.close()",
  "",
  "    def set_auth_token(self, token: str):",
  "        \"\"\"Установка Bearer токена авторизации\"\"\"",
  "        self.headers[\"Authorization\"] = f\"Bearer \x7btoken\x7d\"",
  "        return self",
  "",
  "    async def _ensure_session(self) -> ClientSession:",
  "        if self._session is None or self._session.closed:",
  "            self._session = ClientSession(timeout=self._timeout)",
  "        return self._session",
  "",
  "    async def close(self):",
  "        \"\"\"Закрытие клиента и освобождение ресурсов\"\"\"",
  "        if self._session and not self._session.closed:",
  "            await self._session.close()",
  ""]

/-- The methods that make addresses and values of queries. -/
def valueMethods : List String := [
  "    @staticmethod",
  "    def _url(template: str, path_params: Mapping[str, Any]) -> str:",
  "        for name, value in path_params.items():",
  "            template = template.replace(",
  "                \"\x7b\" + name + \"\x7d\", quote(str(dump(value)), safe=\"\")",
  "            )",
  "        return template",
  "",
  "    @staticmethod",
  "    def _query_value(value: Any) -> Any:",
  "        value = dump(value)",
  "        if isinstance(value, bool):",
  "            return \"true\" if value else \"false\"",
  "        if isinstance(value, (str, int, float)):",
  "            return value",
  "        return json.dumps(value)",
  ""]

/-- The method that makes queries. -/
def queryMethod : List String := [
  "    def _query(self, params: Mapping[str, Any]) -> List[Tuple[str, Any]]:",
  "        items = []",
  "        for key, value in params.items():",
  "            values = value if isinstance(value, (list, tuple)) else [value]",
  "            items.extend((key, self._query_value(item)) for item in values)",
  "        return items",
  ""]

/-- The method that makes requests. -/
def requestMethod : List String := [
  "    async def _request(",
  "        self,",
  "        method: str,",
  "        path: str,",
  "        *,",
  "        params: Optional[Dict[str, Any]] = None,",
  "        headers: Optional[Dict[str, Any]] = None,",
  "        cookies: Optional[Dict[str, Any]] = None,",
  "        json_body: Any = None,",
  "        form_body: Any = None,",
  "        response_type: Any = None,",
  "    ) -> Any:",
  "        session = await self._ensure_session()",
  "        request_headers = dict(self.headers)",
  "        request_headers.update(",
  "            (key, str(self._query_value(value))) for key, value in (headers or \x7b\x7d).items()",
  "        )",
  "",
  "        logger.debug(\"%s %s\", method, path)",
  "        try:",
  "            async with session.request(",
  "                method,",
  "                self.base_url + path,",
  "                params=self._query(params or \x7b\x7d),",
  "                headers=request_headers,",
  "                cookies=\x7bk: str(dump(v)) for k, v in (cookies or \x7b\x7d).items()\x7d,",
  "                json=dump(json_body) if json_body is not None else None,",
  "                data=dump(form_body) if form_body is not None else None,",
  "            ) as response:",
  "                if response.status >= 400:",
  "                    raise SendRequestError(",
  "                        await response.text(),",
  "                        path=path,",
  "                        status_code=response.status,",
  "                    )",
  "                if response_type is None or response.status == 204:",
  "                    return None",
  "                if response.content_type.endswith(\"json\"):",
  "                    data = await response.json()",
  "                else:",
  "                    data = await response.read()",
  "        except ClientError as exc:",
  "            raise SendRequestError(str(exc), path=path, status_code=503) from exc",
  "",
  "        return TypeAdapter(response_type).validate_python(data)"]

/-- What stands between the parts of the file. -/
def gap : List String := ["", ""]

/-- The lines of the file. -/
def lines (baseUrl : String) : List String :=
  imports ++ gap ++ errorClass ++ gap ++ dumpFunction ++ gap ++ dropFunction ++ gap
    ++ classHead baseUrl ++ sessionMethods ++ valueMethods ++ queryMethod ++ requestMethod

/-- The file; the address is that of the server unless another one is given. -/
def file (package baseUrl : String) : CodeFile :=
  .ofCode (package ++ "/common.py") (String.intercalate "\n" (lines baseUrl))

end ApiClientGen.Client.BaseFile
